import VibeKanban.Runtime.Absorption

/-! The transactions that leave the slots and the recorded answers alone. -/
namespace VibeKanban.Runtime
open Lib Workflow

namespace Db

/-- Neither a slot nor a recorded answer changes. -/
structure Apart (db db' : Db) : Prop where
  slots : db'.slots = db.slots
  responses : db'.responses = db.responses

variable {db db' : Db}

theorem Apart.refl (db : Db) : db.Apart db := ⟨rfl, rfl⟩

theorem Apart.trans {db'' : Db} (h : db.Apart db') (h' : db'.Apart db'') : db.Apart db'' :=
  ⟨h'.slots.trans h.slots, h'.responses.trans h.responses⟩

theorem apart_foldlM {α : Type} {step : Db → α → Except String Db}
    (h : ∀ (db : Db) a db', step db a = .ok db' → db.Apart db') {l : List α} {db db' : Db}
    (hfold : l.foldlM step db = .ok db') : db.Apart db' :=
  foldlM_rel Apart.refl (fun _ _ _ h h' => h.trans h') h hfold

theorem apart_skipTarget (db : Db) (runId : ℕ) (nodeId : String) :
    db.Apart (db.skipTarget runId nodeId) := by
  rw [skipTarget]
  split
  · exact ⟨rfl, rfl⟩
  · exact Apart.refl db

theorem apart_skipTargets (db : Db) (runId : ℕ) (targets : List String) :
    db.Apart (targets.foldl (fun db target => db.skipTarget runId target) db) := by
  induction targets generalizing db with
  | nil => exact Apart.refl db
  | cons target rest ih => exact (apart_skipTarget db runId target).trans (ih _)

theorem apart_applyResponse (db : Db) (runId executionId : ℕ) (response : InteractionResponse) :
    db.Apart (db.applyResponse runId executionId response) := by
  cases response with
  | arenaWinner => exact Apart.refl db
  | approve => exact ⟨rfl, rfl⟩
  | branch output skipped =>
    have h := apart_skipTargets (db.setNode executionId .succeeded (some output) none) runId skipped
    exact ⟨h.slots, h.responses⟩
  | reject => exact ⟨rfl, rfl⟩

theorem apart_cancelQueued (db : Db) (runId : ℕ) : db.Apart (db.cancelQueued runId).2 := by
  rw [cancelQueued]
  split_ifs
  · exact ⟨rfl, rfl⟩
  · exact Apart.refl db

theorem apart_materializeNodeExecution {runId : ℕ} {node : WorkflowNode} {iteration : ℤ}
    (h : db.materializeNodeExecution runId node iteration = .ok db') : db.Apart db' := by
  rw [materializeNodeExecution] at h
  split_ifs at h
  obtain rfl := Except.ok.inj h
  exact ⟨rfl, rfl⟩

theorem apart_insertNodeExecution {runId : ℕ} {node : WorkflowNode} {iteration : ℤ}
    (h : db.insertNodeExecution runId node iteration = .ok db') : db.Apart db' := by
  rw [insertNodeExecution] at h
  split_ifs at h
  exact apart_materializeNodeExecution h

theorem apart_materializeAll {runId : ℕ} {nodes : List WorkflowNode}
    (h : db.materializeAll runId nodes = .ok db') : db.Apart db' :=
  apart_foldlM (fun _ _ _ h => apart_materializeNodeExecution h) h

theorem apart_enqueue {runId projectId : ℕ} {phase : QueuePhase}
    (h : db.enqueue runId projectId phase = .ok db') : db.Apart db' := by
  rw [enqueue] at h
  split_ifs at h
  obtain rfl := Except.ok.inj h
  exact ⟨rfl, rfl⟩

theorem apart_initializeRun {runId : ℕ} {attemptId : Option ℕ} {projectId : ℕ}
    {graph : WorkflowGraph} {inputText : String} {queueProjectId : Option ℕ} {phase : QueuePhase}
    {affected : Option (List String)} (h : db.initializeRun runId attemptId projectId graph
      inputText queueProjectId phase affected = .ok db') : db.Apart db' := by
  rcases initializeRun_cases h with ⟨_, rfl⟩ | ⟨_, mid, hmid, hend⟩
  · exact Apart.refl _
  · have hcreate : db.Apart mid := by
      have hrows := apart_materializeAll hmid
      exact ⟨hrows.slots, hrows.responses⟩
    rcases hend with ⟨_, rfl⟩ | ⟨project, _, hqueue⟩
    · exact hcreate
    · exact hcreate.trans (apart_enqueue hqueue)

theorem apart_applyRunPlan {runId : ℕ} {graph : WorkflowGraph} {plan : ReworkPlan}
    (h : db.applyRunPlan runId graph plan = .ok db') : db.Apart db' := by
  rw [applyRunPlan] at h
  obtain ⟨db₁, h₁, h⟩ := except_bind_ok h
  obtain ⟨db₂, h₂, h⟩ := except_bind_ok h
  obtain ⟨db₃, h₃, h⟩ := except_bind_ok h
  obtain rfl := Except.ok.inj h
  refine (apart_foldlM (fun _ _ _ h => ?_) h₁).trans ((apart_foldlM (fun _ _ _ h => ?_) h₂).trans
    ((apart_materializeAll h₃).trans ⟨rfl, rfl⟩))
  · obtain ⟨_, _, rfl⟩ := insertReuse_ok h
    exact ⟨rfl, rfl⟩
  · rw [insertDisposition_ok h]
    exact ⟨rfl, rfl⟩

section
variable {fromStr : String → Option Json}

theorem apart_fixRunPlan {runId : ℕ} {graph : WorkflowGraph} {roots : Option (List String)}
    {sourceRunId : Option ℕ} (h : db.fixRunPlan fromStr runId graph roots sourceRunId = .ok db') :
    db.Apart db' := by
  rw [fixRunPlan] at h
  split at h
  · exact apart_applyRunPlan h
  · obtain rfl := Except.ok.inj h
    exact ⟨rfl, rfl⟩

theorem apart_resolveWaiting {runId : ℕ} (h : db.resolveWaiting fromStr runId = .ok db') :
    db.Apart db' := by
  rcases resolveWaiting_cases fromStr h with rfl | ⟨_, _, _, mid, _, _, _, _, hmid, rfl⟩
  · exact Apart.refl _
  · exact (apart_fixRunPlan hmid).trans ⟨rfl, rfl⟩

theorem apart_submit {scope : SubmissionScope} {submission : WorkflowSubmission} {runId id : ℕ}
    (h : db.submit fromStr scope submission runId = .ok (id, db')) : db.Apart db' := by
  rcases submit_cases fromStr h with ⟨_, _, _, _, rfl⟩ |
    ⟨_, _, _, _, _, _, _, db₀, _, _, db₁, db₂, db₃, _, h₀, _, h₁, h₂, h₃, hend⟩
  · exact Apart.refl _
  · have hstart : db.Apart db₁ := by
      obtain ⟨_, _, _, rfl⟩ := submissionInstance_tables h₀
      have hrun := apart_initializeRun h₁
      exact ⟨hrun.slots, hrun.responses⟩
    have hrow : db₁.Apart db₂ := by
      rw [insertSubmission_ok h₂]
      exact ⟨rfl, rfl⟩
    have hstop : db₂.Apart db₃ := by
      rcases stopSource_cases h₃ with rfl | ⟨source, _, rfl⟩
      · exact Apart.refl _
      · have hcancel := apart_cancelQueued (db₂.insertStopIntent scope.callerNamespace
          ("replacement:" ++ submission.requestId) source (some runId)) source
        exact ⟨hcancel.slots, hcancel.responses⟩
    have hall := hstart.trans (hrow.trans hstop)
    rcases hend with ⟨_, rfl⟩ | ⟨_, _, hplan⟩
    · exact hall
    · exact hall.trans (apart_applyRunPlan hplan)

end

theorem apart_cancelAll (db : Db) (runIds : List ℕ) : db.Apart (db.cancelAll runIds).2 := by
  induction runIds generalizing db with
  | nil => exact Apart.refl db
  | cons id rest ih => exact (apart_cancelQueued db id).trans (ih _)

theorem apart_stop {callerNamespace requestId : String} {instanceId runId : ℕ}
    (h : db.stop callerNamespace instanceId runId requestId = .ok db') : db.Apart db' := by
  rcases stop_cases h with rfl | ⟨_, _, _, _, rfl⟩
  · exact Apart.refl _
  · exact (apart_cancelAll db _).trans ((apart_cancelQueued _ runId).trans ⟨rfl, rfl⟩)

theorem apart_port {call : Port} (h : call.Moves db db') : db.Apart db' := by
  have horch : ∀ db : Db, OrchestrationMoves db db' → db.Apart db' := by
    rintro db ⟨o, rfl⟩
    exact ⟨rfl, rfl⟩
  cases call with
  | createArena runId nodeId iteration =>
    rcases h with h | ⟨group, h⟩
    · exact horch _ h
    · have hbind := horch _ h
      exact ⟨hbind.slots, hbind.responses⟩
  | _ => exact horch _ h

theorem claimNext_responses (db : Db) : db.claimNext.2.responses = db.responses := by
  rw [claimNext]
  split
  · rfl
  · rfl

theorem releaseTerminal_responses (db : Db) (runId : ℕ) :
    (db.releaseTerminal runId).2.responses = db.responses := by
  rw [releaseTerminal]
  split_ifs
  · rfl
  · rfl

theorem apart_enterFlight (db : Db) (runId : ℕ) : db.Apart (db.enterFlight runId).2 := by
  rw [enterFlight]
  split_ifs
  · exact Apart.refl db
  · exact ⟨rfl, rfl⟩

end Db

/-- The statements that may move a slot or record an answer. -/
def Stmt.isApart : Stmt → Bool
  | claimInteraction .. | claimNext | releaseTerminal .. => false
  | _ => true

/-- All other statements leave both alone. -/
theorem Stmt.Exec.apart {fromStr : String → Option Json} {s : Stmt} {db db' : Db} {a : s.Ans}
    (hs : s.isApart = true) (h : s.Exec fromStr db a db') : db.Apart db' := by
  cases s with
  | port call => exact Db.apart_port h
  | insertNodeExecution =>
    rcases commit_ok h with h | rfl
    · exact Db.apart_insertNodeExecution h
    · exact Db.Apart.refl _
  | initializeRun =>
    rcases commit_ok h with h | rfl
    · exact Db.apart_initializeRun h
    · exact Db.Apart.refl _
  | submit =>
    rcases commitWith_ok h with ⟨_, h⟩ | rfl
    · exact Db.apart_submit h
    · exact Db.Apart.refl _
  | resolveWaiting =>
    rcases commit_ok h with h | rfl
    · exact Db.apart_resolveWaiting h
    · exact Db.Apart.refl _
  | stop =>
    rcases commit_ok h with h | rfl
    · exact Db.apart_stop h
    · exact Db.Apart.refl _
  | cancelQueued => exact run_snd h ▸ Db.apart_cancelQueued db _
  | enterFlight => exact run_snd h ▸ Db.apart_enterFlight db _
  | claimInteraction => cases hs
  | claimNext => cases hs
  | releaseTerminal => cases hs
  | never => exact nomatch a
  | _ => exact run_snd h ▸ ⟨rfl, rfl⟩

end VibeKanban.Runtime
