import VibeKanban.Runtime.Frames

/-! How the transactions move the project queue, apart from granting slots and giving them back. -/
namespace VibeKanban.Runtime
open Lib Workflow Relation

/-- The moves of a phase that leave the slots alone: an unclaimed entry finishes, a waiting one is
queued, and one with a slot is starting or active. -/
def QueuePhase.Next (p p' : QueuePhase) : Prop :=
  p.isUnclaimed = true ∧ p' = .finished ∨ p.isWaiting = true ∧ p' = .queued ∨
    p.holdsSlot = true ∧ p'.holdsSlot = true

namespace Db

/-- Submissions are kept with their run and their source, and each run has at most one. -/
structure KeepsSubmissions (rows rows' : List SubmissionRow) : Prop where
  kept : ∀ s ∈ rows, ∃ s' ∈ rows', s'.runId = s.runId ∧ s'.sourceRunId = s.sourceRunId
  keys : (rows.map (·.runId)).Nodup → (rows'.map (·.runId)).Nodup

/-- The queue and the slots are the same, and no run or submission is lost. -/
structure QueueApart (db db' : Db) : Prop where
  queue : db'.queue = db.queue
  slots : db'.slots = db.slots
  nextSequence : db'.nextSequence = db.nextSequence
  runs : db.runs.map (·.id) ⊆ db'.runs.map (·.id)
  submissions : KeepsSubmissions db.submissions db'.submissions

/-- A new run enters the queue with the next sequence number, behind all others; if it waits, it
was submitted with a source that existed before. -/
structure Accepts (db db' : Db) (runId projectId : ℕ) (phase : QueuePhase) : Prop where
  fresh : runId ∉ db.runs.map (·.id)
  unclaimed : phase.isUnclaimed = true
  entry : db.queue? runId = none
  queue : db'.queue = db.queue ++ [⟨db.nextSequence, runId, projectId, phase⟩]
  slots : db'.slots = db.slots
  nextSequence : db'.nextSequence = db.nextSequence + 1
  runs : db.runs.map (·.id) ⊆ db'.runs.map (·.id)
  submissions : KeepsSubmissions db.submissions db'.submissions
  source : phase.isWaiting = true → ∃ s ∈ db'.submissions, s.runId = runId ∧
    ∃ source ∈ db.runs.map (·.id), s.sourceRunId = some source

/-- One move of the queue. -/
inductive QueueMove : Db → Db → Prop where
  | apart {db db' : Db} : db.QueueApart db' → QueueMove db db'
  | phase {db : Db} {p : QueueRow → Bool} {next : QueuePhase} :
    (∀ q ∈ db.queue, p q = true → q.phase.Next next) → QueueMove db (db.setQueue p next)
  | accept {db db' : Db} {runId projectId : ℕ} {phase : QueuePhase} :
    db.Accepts db' runId projectId phase → QueueMove db db'

abbrev QueueMoves : Db → Db → Prop := ReflTransGen QueueMove

variable {db db' : Db}

theorem KeepsSubmissions.refl (rows : List SubmissionRow) : KeepsSubmissions rows rows :=
  ⟨fun s hs => ⟨s, hs, rfl, rfl⟩, fun h => h⟩

theorem KeepsSubmissions.trans {rows rows' rows'' : List SubmissionRow}
    (h : KeepsSubmissions rows rows') (h' : KeepsSubmissions rows' rows'') :
    KeepsSubmissions rows rows'' := by
  refine ⟨fun s hs => ?_, fun hkeys => h'.keys (h.keys hkeys)⟩
  obtain ⟨s', hs', hrun, hsource⟩ := h.kept s hs
  obtain ⟨s'', hs'', hrun', hsource'⟩ := h'.kept s' hs'
  exact ⟨s'', hs'', hrun'.trans hrun, hsource'.trans hsource⟩

theorem QueueApart.refl (db : Db) : db.QueueApart db :=
  ⟨rfl, rfl, rfl, fun _ h => h, KeepsSubmissions.refl _⟩

theorem QueueApart.trans {db'' : Db} (h : db.QueueApart db') (h' : db'.QueueApart db'') :
    db.QueueApart db'' :=
  ⟨h'.queue.trans h.queue, h'.slots.trans h.slots, h'.nextSequence.trans h.nextSequence,
    fun _ hid => h'.runs (h.runs hid), h.submissions.trans h'.submissions⟩

theorem QueueApart.moves (h : db.QueueApart db') : db.QueueMoves db' := .single (.apart h)

/-- A change of other tables. -/
theorem queueApart_of_tables (hq : db'.queue = db.queue) (hs : db'.slots = db.slots)
    (hn : db'.nextSequence = db.nextSequence) (hr : db'.runs = db.runs)
    (hsub : db'.submissions = db.submissions) : db.QueueApart db' :=
  ⟨hq, hs, hn, hr ▸ fun _ h => h, fun s hmem => ⟨s, hsub ▸ hmem, rfl, rfl⟩, hsub ▸ fun h => h⟩

theorem queueApart_setRuns (db : Db) (p : RunRow → Bool) {f : RunRow → RunRow}
    (hf : ∀ r, (f r).id = r.id) : db.QueueApart (db.setRuns p f) := by
  refine ⟨rfl, rfl, rfl, ?_, KeepsSubmissions.refl _⟩
  rw [setRuns, map_updateWhere hf]
  exact fun _ h => h

theorem moves_setRuns (db : Db) (p : RunRow → Bool) {f : RunRow → RunRow}
    (hf : ∀ r, (f r).id = r.id) : db.QueueMoves (db.setRuns p f) := (queueApart_setRuns db p hf).moves

theorem queueApart_setNodes (db : Db) (p : NodeExecutionRow → Bool)
    (f : NodeExecutionRow → NodeExecutionRow) : db.QueueApart (db.setNodes p f) :=
  queueApart_of_tables rfl rfl rfl rfl rfl

theorem queueApart_skipTarget (db : Db) (runId : ℕ) (nodeId : String) :
    db.QueueApart (db.skipTarget runId nodeId) := by
  rw [skipTarget]
  split
  · exact queueApart_setNodes db _ _
  · exact QueueApart.refl db

theorem queueApart_skipTargets (db : Db) (runId : ℕ) (targets : List String) :
    db.QueueApart (targets.foldl (fun db target => db.skipTarget runId target) db) := by
  induction targets generalizing db with
  | nil => exact QueueApart.refl db
  | cons target rest ih => exact (queueApart_skipTarget db runId target).trans (ih _)

theorem queueApart_claimInteraction (db : Db) (runId : ℕ) (nodeId : String) (expected : Option ℕ)
    (awaited : Awaited) (response : InteractionResponse) :
    db.QueueApart (db.claimInteraction runId nodeId expected awaited response).2 := by
  have happly : ∀ (db : Db) id, db.QueueApart (db.applyResponse runId id response) := by
    intro db id
    cases response with
    | arenaWinner => exact QueueApart.refl db
    | approve => exact (queueApart_setNodes db _ _).trans (queueApart_setRuns _ _ fun _ => rfl)
    | branch output skipped =>
      exact (queueApart_setNodes db _ _).trans ((queueApart_skipTargets _ runId skipped).trans
        (queueApart_setRuns _ _ fun _ => rfl))
    | reject =>
      exact (queueApart_setNodes db _ _).trans ((queueApart_setNodes _ _ _).trans
        (queueApart_setRuns _ _ fun _ => rfl))
  rw [claimInteraction]
  split
  · exact QueueApart.refl db
  · rename_i n _
    split_ifs
    · exact QueueApart.refl db
    · have hrecord : db.QueueApart (db.recordResponse n.id response) :=
        queueApart_of_tables rfl rfl rfl rfl rfl
      exact hrecord.trans (happly _ n.id)

theorem queueApart_materializeNodeExecution {runId : ℕ} {node : WorkflowNode} {iteration : ℤ}
    (h : db.materializeNodeExecution runId node iteration = .ok db') : db.QueueApart db' := by
  rw [materializeNodeExecution] at h
  split_ifs at h
  obtain rfl := Except.ok.inj h
  exact queueApart_of_tables rfl rfl rfl rfl rfl

theorem queueApart_insertNodeExecution {runId : ℕ} {node : WorkflowNode} {iteration : ℤ}
    (h : db.insertNodeExecution runId node iteration = .ok db') : db.QueueApart db' := by
  rw [insertNodeExecution] at h
  split_ifs at h
  exact queueApart_materializeNodeExecution h

theorem queueApart_foldlM {α : Type} {step : Db → α → Except String Db}
    (h : ∀ (db : Db) a db', step db a = .ok db' → db.QueueApart db') {l : List α} {db db' : Db}
    (hfold : l.foldlM step db = .ok db') : db.QueueApart db' :=
  foldlM_rel QueueApart.refl (fun _ _ _ h h' => h.trans h') h hfold

theorem queueApart_materializeAll {runId : ℕ} {nodes : List WorkflowNode}
    (h : db.materializeAll runId nodes = .ok db') : db.QueueApart db' :=
  queueApart_foldlM (fun _ _ _ h => queueApart_materializeNodeExecution h) h

theorem queueApart_setPlanning (db : Db) (runId : ℕ) (state : PlanningState)
    (affected : Option (List String)) : db.QueueApart (db.setPlanning runId state affected) := by
  refine ⟨rfl, rfl, rfl, fun _ h => h, fun s hs => ?_, fun hkeys => ?_⟩
  · exact exists_mem_updateWhere (fun _ hkept => hkept) hs ⟨rfl, rfl⟩
  · have hmap : (db.setPlanning runId state affected).submissions.map (·.runId) =
        db.submissions.map (·.runId) := by
      refine map_updateWhere (fun s => ?_) db.submissions
      rfl
    rw [hmap]
    exact hkeys

theorem queueApart_applyRunPlan {runId : ℕ} {graph : WorkflowGraph} {plan : ReworkPlan}
    (h : db.applyRunPlan runId graph plan = .ok db') : db.QueueApart db' := by
  rw [applyRunPlan] at h
  obtain ⟨db₁, h₁, h⟩ := except_bind_ok h
  obtain ⟨db₂, h₂, h⟩ := except_bind_ok h
  obtain ⟨db₃, h₃, h⟩ := except_bind_ok h
  obtain rfl := Except.ok.inj h
  refine (queueApart_foldlM (fun _ _ _ h => ?_) h₁).trans
    ((queueApart_foldlM (fun _ _ _ h => ?_) h₂).trans
      ((queueApart_materializeAll h₃).trans (queueApart_setPlanning db₃ _ _ _)))
  · obtain ⟨_, _, rfl⟩ := insertReuse_ok h
    exact queueApart_of_tables rfl rfl rfl rfl rfl
  · rw [insertDisposition_ok h]
    exact queueApart_of_tables rfl rfl rfl rfl rfl

theorem queueApart_port {call : Port} (h : call.Moves db db') : db.QueueApart db' := by
  have horch : ∀ db : Db, OrchestrationMoves db db' → db.QueueApart db' := by
    rintro db ⟨o, rfl⟩
    exact queueApart_of_tables rfl rfl rfl rfl rfl
  cases call with
  | createArena runId nodeId iteration =>
    rcases h with h | ⟨group, h⟩
    · exact horch _ h
    · exact (queueApart_setNodes db _ _).trans (horch _ h)
  | _ => exact horch _ h

theorem moves_cancelQueued (db : Db) (runId : ℕ) : db.QueueMoves (db.cancelQueued runId).2 := by
  rw [cancelQueued]
  split_ifs
  · have hphase : db.QueueMove (db.setQueue (db.pendingUnclaimed runId) .finished) := by
      refine QueueMove.phase fun q _ hq => Or.inl ⟨?_, rfl⟩
      simp only [pendingUnclaimed, Bool.and_eq_true] at hq
      exact hq.1.2
    refine (ReflTransGen.head hphase ?_).trans (queueApart_setNodes _ _ _).moves
    exact moves_setRuns _ _ fun _ => rfl
  · exact .refl

theorem moves_cancelAll (db : Db) (runIds : List ℕ) : db.QueueMoves (db.cancelAll runIds).2 := by
  induction runIds generalizing db with
  | nil => exact .refl
  | cons id rest ih => exact (moves_cancelQueued db id).trans (ih _)

theorem moves_stop {callerNamespace requestId : String} {instanceId runId : ℕ}
    (h : db.stop callerNamespace instanceId runId requestId = .ok db') : db.QueueMoves db' := by
  rcases stop_cases h with rfl | ⟨_, _, _, _, rfl⟩
  · exact .refl
  · refine (moves_cancelAll db (db.waitingSuccessors instanceId runId)).trans
      ((moves_cancelQueued _ runId).trans (QueueApart.moves ?_))
    exact queueApart_of_tables rfl rfl rfl rfl rfl

section
variable {fromStr : String → Option Json}

theorem moves_fixRunPlan {runId : ℕ} {graph : WorkflowGraph} {roots : Option (List String)}
    {sourceRunId : Option ℕ} (h : db.fixRunPlan fromStr runId graph roots sourceRunId = .ok db') :
    db.QueueMoves db' := by
  rw [fixRunPlan] at h
  split at h
  · exact (queueApart_applyRunPlan h).moves
  · obtain rfl := Except.ok.inj h
    refine ReflTransGen.tail (QueueApart.moves ?_) (QueueMove.phase fun q _ hq => Or.inl ⟨?_, rfl⟩)
    · refine (queueApart_setPlanning db runId .failed none).trans ?_
      exact queueApart_setRuns _ _ fun _ => rfl
    · simp only [Bool.and_eq_true] at hq
      exact hq.2

theorem moves_resolveWaiting {runId : ℕ} (h : db.resolveWaiting fromStr runId = .ok db') :
    db.QueueMoves db' := by
  rcases resolveWaiting_cases fromStr h with rfl | ⟨_, _, _, mid, _, _, _, _, hmid, rfl⟩
  · exact .refl
  · refine (moves_fixRunPlan hmid).tail (QueueMove.phase fun q _ hq => Or.inr (Or.inl ⟨?_, rfl⟩))
    simp only [Bool.and_eq_true] at hq
    exact hq.1.1.2

theorem queueApart_insertSubmission {row : SubmissionRow}
    (h : db.insertSubmission row = .ok db') : db.QueueApart db' := by
  have hnew : row.runId ∉ db.submissions.map (·.runId) := by
    rw [insertSubmission] at h
    split_ifs at h with hexists
    simp only [List.mem_map, not_exists, not_and]
    intro s hs hid
    exact hexists (List.any_eq_true.mpr ⟨s, hs, by simp [hid]⟩)
  rw [insertSubmission_ok h]
  refine ⟨rfl, rfl, rfl, fun _ h => h, fun s hs => ⟨s, List.mem_append_left _ hs, rfl, rfl⟩, ?_⟩
  intro hkeys
  rw [List.map_append, List.nodup_append']
  exact ⟨hkeys, by simp, by simpa using hnew⟩

theorem moves_stopSource {scope : SubmissionScope} {submission : WorkflowSubmission} {runId : ℕ}
    {plan : Option ReworkPlan} (h : db.stopSource scope submission runId plan = .ok db') :
    db.QueueMoves db' := by
  rcases stopSource_cases h with rfl | ⟨source, _, rfl⟩
  · exact .refl
  · have hintent : db.QueueApart (db.insertStopIntent scope.callerNamespace
        ("replacement:" ++ submission.requestId) source (some runId)) :=
      queueApart_of_tables rfl rfl rfl rfl rfl
    exact hintent.moves.trans (moves_cancelQueued _ source)

theorem notMem_of_run_none {runId : ℕ} (h : db.run? runId = none) :
    runId ∉ db.runs.map (·.id) := by
  intro hmem
  obtain ⟨r, hr, hid⟩ := List.mem_map.mp hmem
  simp only [run?, List.find?_eq_none, decide_eq_true_eq] at h
  exact h r hr hid

theorem queueApart_insertRun (db : Db) (run : RunRow) : db.QueueApart (db.insertRun run) := by
  refine ⟨rfl, rfl, rfl, ?_, KeepsSubmissions.refl _⟩
  rw [insertRun, List.map_append]
  exact List.subset_append_left _ _

theorem submissionPhase_unclaimed (submission : WorkflowSubmission) (plan : Option ReworkPlan) :
    (submissionPhase submission plan).isUnclaimed = true := by
  rw [submissionPhase]
  split_ifs
  · rfl
  · rfl
  · rfl

/-- Only a run with an unsettled source waits. -/
theorem submissionPhase_waiting {submission : WorkflowSubmission} {graph : WorkflowGraph}
    {roots : Option (List String)} {plan : Option ReworkPlan}
    (hplan : db.settledPlan fromStr graph roots submission.sourceRunId = .ok plan)
    (h : (submissionPhase submission plan).isWaiting = true) :
    ∃ source, submission.sourceRunId = some source := by
  cases hsource : submission.sourceRunId with
  | some source => exact ⟨source, rfl⟩
  | none =>
    rw [hsource, settledPlan, Option.all_none, if_pos rfl] at hplan
    split at hplan
    · obtain rfl := Except.ok.inj hplan
      simp [submissionPhase, QueuePhase.isWaiting] at h
    · split_ifs at hplan

theorem submissionSource_mem {scope : SubmissionScope} {submission : WorkflowSubmission}
    {run : Option RunRow} (h : db.submissionSource scope submission = .ok run) {source : ℕ}
    (hsource : submission.sourceRunId = some source) : source ∈ db.runs.map (·.id) := by
  rw [submissionSource, hsource] at h
  simp only at h
  split at h
  · rename_i r hr
    have hid : r.id = source := by
      have hr := List.find?_some hr
      simp only [decide_eq_true_eq] at hr
      exact hr.1
    exact List.mem_map.mpr ⟨r, List.mem_of_find?_eq_some hr, hid⟩
  · cases h

/-- A run created for the queue, with its submission. -/
theorem moves_initializeRun {db₁ : Db} {runId : ℕ} {attemptId : Option ℕ} {projectId project : ℕ}
    {graph : WorkflowGraph} {inputText : String} {phase : QueuePhase}
    {affected : Option (List String)} (h : db.initializeRun runId attemptId projectId graph
      inputText (some project) phase affected = .ok db₁) (hphase : phase.isUnclaimed = true)
    (hafter : db₁.QueueApart db') (hsource : phase.isWaiting = true → ∃ s ∈ db'.submissions,
      s.runId = runId ∧ ∃ source ∈ db.runs.map (·.id), s.sourceRunId = some source) :
    db.QueueMoves db' := by
  rcases initializeRun_cases h with ⟨_, rfl⟩ | ⟨hnew, mid, hmid, hend⟩
  · exact hafter.moves
  · rcases hend with ⟨hnone, _⟩ | ⟨_, hproject, hqueue⟩
    · cases hnone
    · obtain rfl := Option.some.inj hproject
      have hmid : db.QueueApart mid :=
        (queueApart_insertRun db _).trans (queueApart_materializeAll hmid)
      rw [enqueue] at hqueue
      split_ifs at hqueue with hentry
      obtain rfl := Except.ok.inj hqueue
      refine .single (QueueMove.accept (⟨notMem_of_run_none hnew, hphase, ?_, ?_, ?_, ?_, ?_, ?_, hsource⟩ :
        db.Accepts db' runId project phase))
      · simpa [queue?, hmid.queue] using hentry
      · rw [hafter.queue, hmid.queue, hmid.nextSequence]
      · exact hafter.slots.trans hmid.slots
      · rw [hafter.nextSequence, hmid.nextSequence]
      · exact fun _ hid => hafter.runs (hmid.runs hid)
      · exact hmid.submissions.trans hafter.submissions

theorem moves_submit {scope : SubmissionScope} {submission : WorkflowSubmission} {runId id : ℕ}
    (h : db.submit fromStr scope submission runId = .ok (id, db')) : db.QueueMoves db' := by
  rcases submit_cases fromStr h with ⟨_, _, _, _, rfl⟩ |
    ⟨_, _, _, _, _, _, _, db₀, _, _, db₁, db₂, db₃, hsource, h₀, hplan, h₁, h₂, h₃, hend⟩
  · exact .refl
  · obtain ⟨_, _, _, hdb₀⟩ := submissionInstance_tables h₀
    have hinstance : db.QueueApart db₀ := by
      rw [hdb₀]
      exact queueApart_of_tables rfl rfl rfl rfl rfl
    have hrun : db₀.QueueMoves db₂ := by
      refine moves_initializeRun h₁ (submissionPhase_unclaimed _ _)
        (queueApart_insertSubmission h₂) fun hwaiting => ?_
      obtain ⟨source, hid⟩ := submissionPhase_waiting hplan hwaiting
      rw [insertSubmission_ok h₂]
      exact ⟨_, List.mem_append_right _ (List.mem_singleton.mpr rfl), rfl, source,
        hinstance.runs (submissionSource_mem hsource hid), hid⟩
    have hall := (hinstance.moves.trans hrun).trans (moves_stopSource h₃)
    rcases hend with ⟨_, rfl⟩ | ⟨_, _, happly⟩
    · exact hall
    · exact hall.trans (queueApart_applyRunPlan happly).moves

end

theorem queueApart_enterFlight (db : Db) (runId : ℕ) : db.QueueApart (db.enterFlight runId).2 := by
  rw [enterFlight]
  split_ifs
  · exact QueueApart.refl db
  · exact queueApart_of_tables rfl rfl rfl rfl rfl

end Db

/-- The statements that grant a slot, give it back or write a phase without looking at it. -/
def Stmt.movesSlots : Stmt → Bool
  | claimNext | releaseTerminal .. | setQueueActive .. => true
  | _ => false

/-- All other statements make moves of the queue only. -/
theorem Stmt.Exec.queueMoves {fromStr : String → Option Json} {s : Stmt} {db db' : Db} {a : s.Ans}
    (hs : s.movesSlots = false) (h : s.Exec fromStr db a db') : db.QueueMoves db' := by
  have htables : ∀ {db' : Db}, db'.queue = db.queue → db'.slots = db.slots →
      db'.nextSequence = db.nextSequence → db'.runs = db.runs → db'.submissions = db.submissions →
      db.QueueMoves db' := fun hq hsl hn hr hsub => (Db.queueApart_of_tables hq hsl hn hr hsub).moves
  cases s with
  | port call => exact (Db.queueApart_port h).moves
  | insertNodeExecution =>
    rcases commit_ok h with h | rfl
    · exact (Db.queueApart_insertNodeExecution h).moves
    · exact .refl
  | initializeRun runId attemptId projectId graph inputText queueProjectId =>
    rcases commit_ok h with h | rfl
    · cases queueProjectId with
      | some project =>
        exact Db.moves_initializeRun h rfl (Db.QueueApart.refl _) fun hwaiting => by cases hwaiting
      | none =>
        rcases Db.initializeRun_cases h with ⟨_, rfl⟩ | ⟨_, mid, hmid, ⟨_, rfl⟩ | ⟨_, hsome, _⟩⟩
        · exact .refl
        · exact ((Db.queueApart_insertRun db _).trans (Db.queueApart_materializeAll hmid)).moves
        · cases hsome
    · exact .refl
  | submit =>
    rcases commitWith_ok h with ⟨_, h⟩ | rfl
    · exact Db.moves_submit h
    · exact .refl
  | resolveWaiting =>
    rcases commit_ok h with h | rfl
    · exact Db.moves_resolveWaiting h
    · exact .refl
  | stop =>
    rcases commit_ok h with h | rfl
    · exact Db.moves_stop h
    · exact .refl
  | claimInteraction => exact run_snd h ▸ (Db.queueApart_claimInteraction db _ _ _ _ _).moves
  | cancelQueued => exact run_snd h ▸ Db.moves_cancelQueued db _
  | enterFlight => exact run_snd h ▸ (Db.queueApart_enterFlight db _).moves
  | resumeQueueActive =>
    refine run_snd h ▸ .single (.phase fun q _ hq => Or.inr (Or.inr ⟨?_, rfl⟩))
    simp only [Bool.and_eq_true, decide_eq_true_eq] at hq
    rw [hq.1.2]
    rfl
  | setQueueStarting =>
    refine run_snd h ▸ .single (.phase fun q _ hq => Or.inr (Or.inr ⟨?_, rfl⟩))
    simp only [Bool.and_eq_true, decide_eq_true_eq] at hq
    rw [hq.2]
    rfl
  | updateRunStatus => exact run_snd h ▸ Db.moves_setRuns db _ fun _ => rfl
  | startRun => exact run_snd h ▸ Db.moves_setRuns db _ fun _ => rfl
  | resetRunPending => exact run_snd h ▸ Db.moves_setRuns db _ fun _ => rfl
  | setOrchestrationRun => exact run_snd h ▸ Db.moves_setRuns db _ fun _ => rfl
  | repairOrchestrationRun => exact run_snd h ▸ Db.moves_setRuns db _ fun _ => rfl
  | claimNext => cases hs
  | releaseTerminal => cases hs
  | setQueueActive => cases hs
  | never => exact nomatch a
  | _ => exact run_snd h ▸ htables rfl rfl rfl rfl rfl

section Fixture

def instanceDb : Db := { Db.empty with attempts := [⟨9, 3, straightGraph, none⟩] }

end Fixture

end VibeKanban.Runtime
