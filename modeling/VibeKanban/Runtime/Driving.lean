import VibeKanban.Lib.Discipline
import VibeKanban.Runtime.Observation

/-! A drive loop does not cancel its run. -/
namespace VibeKanban.Runtime
open Lib Workflow Router

/-- The statements of a drive loop; none of them cancels a run. -/
def Stmt.isDriving : Stmt → Bool
  | read .. | port .. | updateNodeExecution .. | skipPendingExecution .. | insertNodeExecution ..
  | never => true
  | updateRunStatus _ status _ _ => decide (status ≠ .canceled)
  | _ => false

def driving : Discipline Stmt Stmt.Ans Unit where
  allowed s _ := s.isDriving = true
  possible _ _ _ := True
  next _ _ g := g
  final _ := True

section Drive
variable {α β : Type} (config : Config) (runId : ℕ) (graph : WorkflowGraph)

theorem driving_exec {s : Stmt} (h : s.isDriving = true) : driving.Neutral (Program.exec s) :=
  Discipline.Neutral.stmt (fun _ => h) fun _ _ => rfl

theorem driving_read (f : Db → β) : driving.Neutral (Program.read f) := driving_exec rfl

theorem driving_require {p : Program (Except String α)} (hp : driving.Neutral p) :
    driving.Neutral (Program.require p) := hp.bind fun a => .ofExcept a

theorem driving_ite {c : Prop} [Decidable c] {p q : Program α} (hp : driving.Neutral p)
    (hq : driving.Neutral q) : driving.Neutral (if c then p else q) := by
  split_ifs
  · exact hp
  · exact hq

theorem driving_markSkippedTargets (targets : List String) :
    driving.Neutral (markSkippedTargets runId targets) := by
  refine Discipline.Neutral.forEach (fun target => ?_) targets
  refine (driving_read _).bind fun row => ?_
  cases row with
  | none => exact .pure ()
  | some n => exact driving_exec rfl

theorem driving_failDispatch (nodeId : String) (iteration : ℤ) (origin : NodeWrite)
    (message : String) : driving.Neutral (failDispatch runId nodeId iteration origin message) := by
  refine Discipline.Neutral.bind (driving_exec rfl) fun _ => ?_
  refine Discipline.Neutral.bind ?_ fun _ => ?_
  · exact (driving_read _).bind fun rows => .forEach (fun _ => driving_exec rfl) rows
  · exact Discipline.Neutral.bind (driving_exec rfl) fun _ => .pure _

theorem driving_completeConditionRouter (nodeId : String) (iteration : ℤ)
    (startedOutputText : Option String) (rawOutput : String) : driving.Neutral
      (completeConditionRouter config runId graph nodeId iteration startedOutputText rawOutput) := by
  rw [completeConditionRouter]
  split
  · exact .fail _
  split_ifs
  · exact .fail _
  refine Discipline.Neutral.bind ?_ fun warning => ?_
  · rw [routerMutationWarning]
    split
    · exact .pure _
    refine (driving_require (driving_exec rfl)).bind fun after => ?_
    split
    · exact .pure _
    split_ifs
    · exact .pure _
    · exact .pure _
  · dsimp only
    split_ifs
    · exact Discipline.Neutral.bind (driving_exec rfl) fun _ =>
        Discipline.Neutral.bind (driving_exec rfl) fun _ => .pure _
    · exact Discipline.Neutral.bind (driving_exec rfl) fun _ =>
        (driving_markSkippedTargets runId _).bind fun _ => .pure _

section Execute
variable (node : WorkflowNode) (iteration : ℤ)

theorem driving_executeAgent : driving.Neutral (executeAgent runId node iteration) := by
  refine (driving_read _).bind fun _ => driving_ite (.fail _) ?_
  refine (driving_require (driving_exec rfl)).bind fun _ => ?_
  refine Discipline.Neutral.bind (driving_exec rfl) fun _ => ?_
  refine Discipline.Neutral.bind (driving_exec rfl) fun a => ?_
  match a with
  | .ok (.completed _ outputText) =>
    exact Discipline.Neutral.bind (driving_exec rfl) fun _ => .pure _
  | .ok (.started _ outputText) =>
    exact Discipline.Neutral.bind (driving_exec rfl) fun _ => .pure _
  | .error message => exact driving_failDispatch _ _ _ _ _

theorem driving_executeCondition :
    driving.Neutral (executeCondition config runId graph node iteration) := by
  refine (driving_require (driving_exec rfl)).bind fun _ => ?_
  refine driving_ite (.fail _) ?_
  refine (driving_require (driving_exec rfl)).bind fun _ => ?_
  refine (driving_require (driving_exec rfl)).bind fun _ => driving_ite (.fail _) ?_
  refine Discipline.Neutral.bind (driving_exec rfl) fun _ => ?_
  refine Discipline.Neutral.bind (driving_exec rfl) fun a => ?_
  match a with
  | .ok (.completed _ outputText) =>
    refine Discipline.Neutral.bind (driving_exec rfl) fun _ => ?_
    exact (driving_completeConditionRouter _ _ _ _ _ _ _).bind fun _ => .pure _
  | .ok (.started _ _) => exact Discipline.Neutral.bind (driving_exec rfl) fun _ => .pure _
  | .error message => exact driving_failDispatch _ _ _ _ _

theorem driving_executeArena : driving.Neutral (executeArena runId node iteration) := by
  refine Discipline.Neutral.bind (driving_exec rfl) fun _ => ?_
  refine Discipline.Neutral.bind (driving_exec rfl) fun a => ?_
  match a with
  | .ok arenaGroupId =>
    exact Discipline.Neutral.bind (driving_exec rfl) fun _ =>
      Discipline.Neutral.bind (driving_exec rfl) fun _ => .pure _
  | .error message => exact driving_failDispatch _ _ _ _ _

theorem driving_executePure (context : NodeHandlerContext) :
    driving.Neutral (executePure config runId node iteration context) := by
  refine Discipline.Neutral.bind (driving_exec rfl) fun _ => ?_
  cases handlePureNode config.applyTransform node context with
  | error message => exact driving_failDispatch _ _ _ _ _
  | ok outcome =>
    obtain ⟨status, outputText, skipped⟩ := outcome
    cases status with
    | succeeded =>
      exact Discipline.Neutral.bind (driving_exec rfl) fun _ =>
        (driving_markSkippedTargets _ _).bind fun _ => .pure _
    | awaitingHuman =>
      exact Discipline.Neutral.bind (driving_exec rfl) fun _ =>
        Discipline.Neutral.bind (driving_exec rfl) fun _ => .pure _
    | awaitingArena =>
      exact Discipline.Neutral.bind (driving_exec rfl) fun _ =>
        Discipline.Neutral.bind (driving_exec rfl) fun _ => .pure _

theorem driving_executeReadyNode (text : String) :
    driving.Neutral (executeReadyNode config runId graph node iteration text) := by
  refine Discipline.Neutral.bind ?_ fun context => ?_
  · exact (Discipline.Neutral.collect (fun _ => driving_read _) _).bind fun _ => .pure _
  split
  · exact driving_executeAgent _ _ _
  · exact driving_executeCondition _ _ _ _ _
  · exact driving_executeArena _ _ _
  · exact driving_executePure _ _ _ _ _

end Execute

theorem driving_fetchRunStatus : driving.Neutral (fetchRunStatus runId) := by
  refine (driving_read _).bind fun status => ?_
  cases status with
  | some status => exact .pure _
  | none => exact .fail _

theorem driving_dispatchReadyNodes (text : String) (shouldPause : Bool) (ready : List ReadyNode) :
    driving.Neutral (dispatchReadyNodes config runId graph text shouldPause ready) := by
  induction ready generalizing shouldPause with
  | nil => exact .pure _
  | cons first rest ih =>
    rw [dispatchReadyNodes]
    refine (driving_fetchRunStatus _).bind fun _ => driving_ite (.pure _) ?_
    split
    · exact ih _
    · refine (driving_executeReadyNode _ _ _ _ _ _).bind fun step => ?_
      cases step with
      | «continue» => exact ih _
      | pause => exact ih _
      | stop => exact .pure _

theorem driving_ensureTriggeredNodeIterations :
    driving.Neutral (ensureTriggeredNodeIterations config runId graph) := by
  refine (driving_read _).bind fun _ => (driving_read _).bind fun _ => ?_
  refine (driving_read _).bind fun _ => (driving_read _).bind fun _ => ?_
  refine Discipline.Neutral.forEach (fun missing => ?_) _
  exact (driving_require (driving_exec rfl)).bind fun _ => driving_require (driving_exec rfl)

theorem driving_driveWorkflowRun (text : String) (passes : ℕ) :
    driving.Neutral (driveWorkflowRun config runId graph text passes) := by
  induction passes with
  | zero => exact Discipline.Neutral.bind (driving_exec rfl) fun stuck => nomatch stuck
  | succ passes ih =>
    refine Discipline.Neutral.bind ?_ fun _ => driving_ite ih (.pure _)
    refine (driving_fetchRunStatus _).bind fun _ => driving_ite (.pure _) ?_
    refine (driving_ensureTriggeredNodeIterations _ _ _).bind fun _ => ?_
    refine (driving_read _).bind fun snapshot => driving_ite ?_ ?_
    · exact (driving_read _).bind fun _ =>
        Discipline.Neutral.bind (driving_exec rfl) fun _ => .pure _
    · exact driving_ite (.pure _) (driving_dispatchReadyNodes _ _ _ _ _ _)

end Drive

section Uncanceled
variable {config : Config} {env : Surroundings} {runId : ℕ}

theorem runStatus_updateRunStatus {db : Db} {status : WorkflowRunStatus} (hs : status ≠ .canceled)
    (h : db.runStatus? runId ≠ some .canceled) (target : ℕ) (outputText errorText : Option String) :
    (db.updateRunStatus target status outputText errorText).runStatus? runId ≠ some .canceled := by
  have hfind := find_updateWhere RunRow.id (p := fun r => r.id == target &&
      !r.status.isTerminal && (decide (r.status ≠ .cancelling) ||
        decide (status = .cancelling ∨ status = .canceled)))
    (f := fun r => { r with status := status, outputText := outputText, errorText := errorText })
    (fun _ => rfl) db.runs runId
  rw [Db.runStatus?, Db.run?] at h ⊢
  rw [Db.updateRunStatus, Db.setRuns, hfind]
  cases hrow : db.runs.find? fun r => r.id = runId with
  | none => simp
  | some r =>
    rw [hrow] at h
    rw [Option.map_some, Option.map_some]
    split_ifs
    · simpa using hs
    · simpa using h

/-- A statement of a drive loop does not cancel the run. -/
theorem observe_uncanceled {s : Stmt} (hs : s.isDriving = true) {db db' : Db} {a : s.Ans}
    (hrun : s.observe config env db = some (a, db')) (h : db.runStatus? runId ≠ some .canceled) :
    db'.runStatus? runId ≠ some .canceled := by
  have hruns : db'.runs = db.runs → db'.runStatus? runId ≠ some .canceled := by
    intro heq
    rw [Db.runStatus?, Db.run?, heq]
    exact h
  have hexec := Stmt.observe_exec config env s hrun
  cases s with
  | read =>
    obtain rfl := run_snd hexec
    exact h
  | port call =>
    cases call with
    | createArena =>
      rcases hexec with ⟨o, rfl⟩ | ⟨group, o, rfl⟩
      · exact hruns rfl
      · exact hruns rfl
    | _ =>
      obtain ⟨o, rfl⟩ := hexec
      exact hruns rfl
  | updateNodeExecution =>
    obtain rfl := run_snd hexec
    exact hruns rfl
  | skipPendingExecution =>
    obtain rfl := run_snd hexec
    exact hruns rfl
  | insertNodeExecution =>
    rcases commit_ok hexec with hinsert | rfl
    · have hkeeps : ∀ {node : WorkflowNode} {iteration : ℤ} {target : ℕ},
          db.insertNodeExecution target node iteration = .ok db' → db'.runs = db.runs := by
        intro node iteration target hok
        rw [Db.insertNodeExecution] at hok
        split_ifs at hok
        rw [Db.materializeNodeExecution] at hok
        split_ifs at hok
        obtain rfl := Except.ok.inj hok
        rfl
      exact hruns (hkeeps hinsert)
    · exact h
  | updateRunStatus =>
    obtain rfl := run_snd hexec
    exact runStatus_updateRunStatus (of_decide_eq_true hs) h _ _ _
  | never => cases hexec
  | _ => cases hs

/-- A drive loop never ends with a canceled run. -/
theorem drive_uncanceled {graph : WorkflowGraph} {text : String} {passes : ℕ} {db db' : Db}
    {r : Except String Unit}
    (hplay : (driveWorkflowRun config runId graph text passes).play (Stmt.observe config env) db =
      some (r, db')) (h : db.runStatus? runId ≠ some .canceled) :
    db'.runStatus? runId ≠ some .canceled :=
  Discipline.Keeps.play (D := driving) (I := fun db => db.runStatus? runId ≠ some .canceled)
    (fun _ _ _ => trivial) (fun _ _ _ _ _ hs hrun hx => observe_uncanceled hs hrun hx)
    (driving_driveWorkflowRun config runId graph text passes ()) hplay h

end Uncanceled

end VibeKanban.Runtime
