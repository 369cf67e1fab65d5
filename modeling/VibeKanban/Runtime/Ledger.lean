import VibeKanban.Runtime.Operations

/-! The ledger of accepted requests: what a submission records, and that nothing else in the
runtime touches it. -/
namespace VibeKanban.Runtime
open Lib Workflow

/-- What a submission records of its request. -/
structure Acceptance where
  runId : ℕ
  instanceId : ℕ
  callerNamespace : String
  requestId : String
  requestHash : String
  sourceRunId : Option ℕ
  deriving DecidableEq, Repr

def SubmissionRow.acceptance (s : SubmissionRow) : Acceptance :=
  ⟨s.runId, s.instanceId, s.callerNamespace, s.requestId, s.requestHash, s.sourceRunId⟩

/-- The caller, the instance and the request, which name one acceptance. -/
def Acceptance.key (a : Acceptance) : String × ℕ × String :=
  (a.callerNamespace, a.instanceId, a.requestId)

def RunRow.owner (r : RunRow) : ℕ × Option ℕ := (r.id, r.attemptId)

namespace Db

def acceptances (db : Db) : List Acceptance := db.submissions.map (·.acceptance)

/-- The accepted requests of one instance, oldest first. -/
def history (db : Db) (instanceId : ℕ) : List Acceptance :=
  db.acceptances.filter fun a => a.instanceId = instanceId

/-- A change that accepts nothing: the ledger, the runs and the instances stay. -/
structure Aside (db db' : Db) : Prop where
  acceptances : db'.acceptances = db.acceptances
  runs : db'.runs.map (·.owner) = db.runs.map (·.owner)
  attempts : db'.attempts = db.attempts
  nextId : db.nextId ≤ db'.nextId

variable {db db' : Db}

theorem Aside.refl (db : Db) : db.Aside db := ⟨rfl, rfl, rfl, le_rfl⟩

theorem Aside.trans {db'' : Db} (h : db.Aside db') (h' : db'.Aside db'') : db.Aside db'' :=
  ⟨h'.acceptances.trans h.acceptances, h'.runs.trans h.runs, h'.attempts.trans h.attempts,
    h.nextId.trans h'.nextId⟩

/-- A change of other tables. -/
theorem aside_of_tables (hs : db'.submissions = db.submissions) (hr : db'.runs = db.runs)
    (ha : db'.attempts = db.attempts) (hn : db.nextId ≤ db'.nextId) : db.Aside db' := by
  refine ⟨?_, ?_, ha, hn⟩
  · unfold acceptances
    rw [hs]
  · rw [hr]

theorem aside_setRuns (db : Db) (p : RunRow → Bool) {f : RunRow → RunRow}
    (hf : ∀ r, (f r).owner = r.owner) : db.Aside (db.setRuns p f) := by
  refine ⟨rfl, ?_, rfl, le_rfl⟩
  unfold setRuns
  exact map_updateWhere hf db.runs

theorem aside_setNodes (db : Db) (p : NodeExecutionRow → Bool)
    (f : NodeExecutionRow → NodeExecutionRow) : db.Aside (db.setNodes p f) :=
  aside_of_tables rfl rfl rfl le_rfl

theorem aside_setQueue (db : Db) (p : QueueRow → Bool) (phase : QueuePhase) :
    db.Aside (db.setQueue p phase) := aside_of_tables rfl rfl rfl le_rfl

theorem aside_skipTargets (db : Db) (runId : ℕ) (targets : List String) :
    db.Aside (targets.foldl (fun db target => db.skipTarget runId target) db) := by
  induction targets generalizing db with
  | nil => exact Aside.refl db
  | cons target rest ih =>
    have hskip : db.Aside (db.skipTarget runId target) := by
      unfold skipTarget
      split
      · exact aside_setNodes db _ _
      · exact Aside.refl db
    exact hskip.trans (ih _)

theorem aside_applyResponse (db : Db) (runId executionId : ℕ) (response : InteractionResponse) :
    db.Aside (db.applyResponse runId executionId response) := by
  cases response with
  | arenaWinner => exact Aside.refl db
  | approve => exact (aside_setNodes db _ _).trans (aside_setRuns _ _ fun _ => rfl)
  | branch output skipped =>
    exact (aside_setNodes db _ _).trans ((aside_skipTargets _ runId skipped).trans
      (aside_setRuns _ _ fun _ => rfl))
  | reject =>
    exact (aside_setNodes db _ _).trans ((aside_setNodes _ _ _).trans
      (aside_setRuns _ _ fun _ => rfl))

theorem aside_claimInteraction (db : Db) (runId : ℕ) (nodeId : String) (expected : Option ℕ)
    (awaited : Awaited) (response : InteractionResponse) :
    db.Aside (db.claimInteraction runId nodeId expected awaited response).2 := by
  unfold claimInteraction
  split
  · exact Aside.refl db
  · rename_i n _
    split_ifs
    · exact Aside.refl db
    · have hrecord : db.Aside (db.recordResponse n.id response) :=
        aside_of_tables rfl rfl rfl le_rfl
      exact hrecord.trans (aside_applyResponse _ runId n.id response)

theorem aside_materializeNodeExecution {runId : ℕ} {node : WorkflowNode} {iteration : ℤ}
    (h : db.materializeNodeExecution runId node iteration = .ok db') : db.Aside db' := by
  unfold materializeNodeExecution at h
  split_ifs at h
  obtain rfl := Except.ok.inj h
  exact aside_of_tables rfl rfl rfl (Nat.le_succ _)

theorem aside_foldlM {α : Type} {step : Db → α → Except String Db}
    (h : ∀ (db : Db) a db', step db a = .ok db' → db.Aside db') {l : List α} {db db' : Db}
    (hfold : l.foldlM step db = .ok db') : db.Aside db' :=
  foldlM_rel Aside.refl (fun _ _ _ h h' => h.trans h') h hfold

theorem aside_materializeAll {runId : ℕ} {nodes : List WorkflowNode}
    (h : db.materializeAll runId nodes = .ok db') : db.Aside db' :=
  aside_foldlM (fun _ _ _ h => aside_materializeNodeExecution h) h

theorem aside_setPlanning (db : Db) (runId : ℕ) (state : PlanningState)
    (affected : Option (List String)) : db.Aside (db.setPlanning runId state affected) := by
  refine ⟨?_, rfl, rfl, le_rfl⟩
  unfold acceptances setPlanning
  refine map_updateWhere (fun s => ?_) db.submissions
  rfl

theorem aside_applyRunPlan {runId : ℕ} {graph : WorkflowGraph} {plan : ReworkPlan}
    (h : db.applyRunPlan runId graph plan = .ok db') : db.Aside db' := by
  unfold applyRunPlan at h
  obtain ⟨db₁, h₁, h⟩ := except_bind_ok h
  obtain ⟨db₂, h₂, h⟩ := except_bind_ok h
  obtain ⟨db₃, h₃, h⟩ := except_bind_ok h
  obtain rfl := Except.ok.inj h
  have hreuse : db.Aside db₁ := by
    refine aside_foldlM (fun _ _ _ h => ?_) h₁
    obtain ⟨_, _, rfl⟩ := insertReuse_ok h
    exact aside_of_tables rfl rfl rfl le_rfl
  have hskipped : db₁.Aside db₂ := by
    refine aside_foldlM (fun _ _ _ h => ?_) h₂
    rw [insertDisposition_ok h]
    exact aside_of_tables rfl rfl rfl le_rfl
  exact hreuse.trans (hskipped.trans ((aside_materializeAll h₃).trans (aside_setPlanning db₃ _ _ _)))

theorem aside_cancelQueued (db : Db) (runId : ℕ) : db.Aside (db.cancelQueued runId).2 := by
  unfold cancelQueued
  split_ifs
  · refine (aside_setQueue db (db.pendingUnclaimed runId) .finished).trans (Aside.trans ?_ (aside_setNodes _ _ _))
    exact aside_setRuns _ _ fun _ => rfl
  · exact Aside.refl db

theorem aside_cancelAll (db : Db) (runIds : List ℕ) : db.Aside (db.cancelAll runIds).2 := by
  induction runIds generalizing db with
  | nil => exact Aside.refl db
  | cons id rest ih => exact (aside_cancelQueued db id).trans (ih _)

theorem aside_stop {callerNamespace requestId : String} {instanceId runId : ℕ}
    (h : db.stop callerNamespace instanceId runId requestId = .ok db') : db.Aside db' := by
  rcases stop_cases h with rfl | ⟨_, _, _, hnext, rfl⟩
  · exact Aside.refl _
  · exact (aside_cancelAll db (db.waitingSuccessors instanceId runId)).trans
      ((aside_cancelQueued _ runId).trans (aside_of_tables rfl rfl rfl hnext))

theorem aside_stopSource {scope : SubmissionScope} {submission : WorkflowSubmission} {runId : ℕ}
    {plan : Option ReworkPlan} (h : db.stopSource scope submission runId plan = .ok db') :
    db.Aside db' := by
  rcases stopSource_cases h with rfl | ⟨source, _, rfl⟩
  · exact Aside.refl _
  · have hintent : db.Aside (db.insertStopIntent scope.callerNamespace
        ("replacement:" ++ submission.requestId) source (some runId)) :=
      aside_of_tables rfl rfl rfl (Nat.le_succ _)
    exact hintent.trans (aside_cancelQueued _ source)

theorem aside_resolveWaiting {fromStr : String → Option Json} {runId : ℕ}
    (h : db.resolveWaiting fromStr runId = .ok db') : db.Aside db' := by
  rcases resolveWaiting_cases fromStr h with rfl | ⟨_, _, _, mid, _, _, _, _, hmid, rfl⟩
  · exact Aside.refl _
  · have hplan : db.Aside mid := by
      unfold fixRunPlan at hmid
      split at hmid
      · exact aside_applyRunPlan hmid
      · obtain rfl := Except.ok.inj hmid
        refine (aside_setPlanning db runId .failed none).trans ?_
        refine Aside.trans ?_ (aside_setQueue _ _ _)
        exact aside_setRuns _ _ fun _ => rfl
    exact hplan.trans (aside_setQueue _ _ _)

theorem aside_port {call : Port} (h : call.Moves db db') : db.Aside db' := by
  have horch : ∀ db : Db, OrchestrationMoves db db' → db.Aside db' := by
    rintro db ⟨o, rfl⟩
    exact aside_of_tables rfl rfl rfl le_rfl
  cases call with
  | createArena runId nodeId iteration =>
    rcases h with h | ⟨group, h⟩
    · exact horch _ h
    · exact (aside_setNodes db _ _).trans (horch _ h)
  | _ => exact horch _ h

theorem aside_claimNext (db : Db) : db.Aside db.claimNext.2 := by
  unfold claimNext
  split
  · exact Aside.refl db
  · exact aside_of_tables rfl rfl rfl le_rfl

theorem aside_releaseTerminal (db : Db) (runId : ℕ) : db.Aside (db.releaseTerminal runId).2 := by
  unfold releaseTerminal
  split_ifs
  · exact aside_of_tables rfl rfl rfl le_rfl
  · exact Aside.refl db

theorem aside_enterFlight (db : Db) (runId : ℕ) : db.Aside (db.enterFlight runId).2 := by
  unfold enterFlight
  split_ifs
  · exact Aside.refl db
  · exact aside_of_tables rfl rfl rfl le_rfl

end Db

/-- The statements that write the ledger, the runs or the instances. -/
def Stmt.accepts : Stmt → Bool
  | submit .. | initializeRun .. | syncAttempt .. => true
  | _ => false

/-- No other statement accepts anything. -/
theorem Stmt.Exec.aside {fromStr : String → Option Json} {s : Stmt} {db db' : Db} {a : s.Ans}
    (hs : s.accepts = false) (h : s.Exec fromStr db a db') : db.Aside db' := by
  cases s with
  | port call => exact Db.aside_port h
  | insertNodeExecution runId node iteration =>
    rcases commit_ok h with h | rfl
    · unfold Db.insertNodeExecution at h
      split_ifs at h
      exact Db.aside_materializeNodeExecution h
    · exact Db.Aside.refl _
  | resolveWaiting =>
    rcases commit_ok h with h | rfl
    · exact Db.aside_resolveWaiting h
    · exact Db.Aside.refl _
  | stop =>
    rcases commit_ok h with h | rfl
    · exact Db.aside_stop h
    · exact Db.Aside.refl _
  | submit => cases hs
  | initializeRun => cases hs
  | syncAttempt => cases hs
  | claimInteraction => exact run_snd h ▸ Db.aside_claimInteraction db _ _ _ _ _
  | cancelQueued => exact run_snd h ▸ Db.aside_cancelQueued db _
  | claimNext => exact run_snd h ▸ Db.aside_claimNext db
  | releaseTerminal => exact run_snd h ▸ Db.aside_releaseTerminal db _
  | enterFlight => exact run_snd h ▸ Db.aside_enterFlight db _
  | updateRunStatus => exact run_snd h ▸ Db.aside_setRuns db _ fun _ => rfl
  | startRun => exact run_snd h ▸ Db.aside_setRuns db _ fun _ => rfl
  | resetRunPending => exact run_snd h ▸ Db.aside_setRuns db _ fun _ => rfl
  | setOrchestrationRun => exact run_snd h ▸ Db.aside_setRuns db _ fun _ => rfl
  | repairOrchestrationRun => exact run_snd h ▸ Db.aside_setRuns db _ fun _ => rfl
  | never => exact nomatch a
  | _ => exact run_snd h ▸ Db.aside_of_tables rfl rfl rfl le_rfl

end VibeKanban.Runtime
