import VibeKanban.Runtime.Operations
import VibeKanban.Runtime.Snapshot

/-! Terminal statuses are absorbing under every interleaving of the operations. -/
namespace VibeKanban.Runtime
open Lib Workflow

/-- How the row of a run may change. -/
structure RunAbsorbs (r r' : RunRow) : Prop where
  id : r.id = r'.id
  terminal : r.status.isTerminal = true → r'.status = r.status
  cancelling : r.status = .cancelling → r'.status = .cancelling ∨ r'.status = .canceled

/-- How the row of an execution may change. -/
structure NodeAbsorbs (n n' : NodeExecutionRow) : Prop where
  id : n.id = n'.id
  key : (n.runId, n.nodeId, n.iteration) = (n'.runId, n'.nodeId, n'.iteration)
  terminal : nodeTerminal n.status = true → n'.status = n.status
  started : n.status ≠ .pending → n'.status ≠ .pending

theorem RunAbsorbs.refl (r : RunRow) : RunAbsorbs r r := ⟨rfl, fun _ => rfl, fun h => Or.inl h⟩

theorem NodeAbsorbs.refl (n : NodeExecutionRow) : NodeAbsorbs n n :=
  ⟨rfl, rfl, fun _ => rfl, fun h => h⟩

theorem RunAbsorbs.trans (a b c : RunRow) (h : RunAbsorbs a b) (h' : RunAbsorbs b c) :
    RunAbsorbs a c := by
  refine ⟨h.id.trans h'.id, fun ht => ?_, fun hc => ?_⟩
  · have hb := h.terminal ht
    exact (h'.terminal (hb ▸ ht)).trans hb
  · rcases h.cancelling hc with hb | hb
    · exact h'.cancelling hb
    · exact Or.inr ((h'.terminal (by rw [hb]; rfl)).trans hb)

theorem NodeAbsorbs.trans (a b c : NodeExecutionRow) (h : NodeAbsorbs a b)
    (h' : NodeAbsorbs b c) : NodeAbsorbs a c := by
  refine ⟨h.id.trans h'.id, h.key.trans h'.key, fun ht => ?_, fun hs => h'.started (h.started hs)⟩
  have hb := h.terminal ht
  exact (h'.terminal (hb ▸ ht)).trans hb

namespace Db

/-- The primary and unique keys of the runs and the executions. -/
structure Keyed (db : Db) : Prop extends db.ExecutionKeys where
  runIds : (db.runs.map (·.id)).Nodup

/-- A change that keeps the keys and all terminal statuses. -/
def Sound (db db' : Db) : Prop :=
  db.Keyed → db'.Keyed ∧ Evolves RunAbsorbs db.runs db'.runs ∧
    Evolves NodeAbsorbs db.nodeExecutions db'.nodeExecutions

variable {db db' : Db}

theorem Sound.refl (db : Db) : db.Sound db :=
  fun hk => ⟨hk, Evolves.refl RunAbsorbs.refl _, Evolves.refl NodeAbsorbs.refl _⟩

theorem Sound.trans {db'' : Db} (h : db.Sound db') (h' : db'.Sound db'') : db.Sound db'' := by
  intro hk
  obtain ⟨hk', hr, hn⟩ := h hk
  obtain ⟨hk'', hr', hn'⟩ := h' hk'
  exact ⟨hk'', hr.trans RunAbsorbs.trans hr', hn.trans NodeAbsorbs.trans hn'⟩

/-- A finished execution keeps its status. -/
theorem Sound.nodeStatus (h : db.Sound db') (hk : db.Keyed) {executionId : ℕ}
    {status : NodeExecutionStatus} (hs : db.nodeStatus? executionId = some status)
    (ht : nodeTerminal status = true) : db'.nodeStatus? executionId = some status := by
  obtain ⟨n, hn, rfl⟩ := Option.map_eq_some_iff.mp hs
  obtain ⟨n', hn', habs⟩ := (h hk).2.2.find_key NodeExecutionRow.id (fun _ _ h => h.id) hn
  rw [nodeStatus?, hn', ← habs.terminal ht]
  rfl

/-- A change of other tables. -/
theorem sound_of_tables (hr : db'.runs = db.runs) (hn : db'.nodeExecutions = db.nodeExecutions)
    (hid : db.nextId ≤ db'.nextId) : db.Sound db' := by
  intro hk
  refine ⟨⟨⟨hn ▸ hk.ids, ?_, hn ▸ hk.keys⟩, hr ▸ hk.runIds⟩, ?_, ?_⟩
  · intro n hmem
    rw [hn] at hmem
    exact lt_of_lt_of_le (hk.fresh n hmem) hid
  · rw [hr]
    exact Evolves.refl RunAbsorbs.refl _
  · rw [hn]
    exact Evolves.refl NodeAbsorbs.refl _

/-- An update of executions that leaves the keys alone. -/
structure KeepsKeys (f : NodeExecutionRow → NodeExecutionRow) : Prop where
  id : ∀ n, (f n).id = n.id
  key : ∀ n, ((f n).runId, (f n).nodeId, (f n).iteration) = (n.runId, n.nodeId, n.iteration)

theorem setNodes_keyed {p : NodeExecutionRow → Bool} {f : NodeExecutionRow → NodeExecutionRow}
    (hf : KeepsKeys f) (hk : db.Keyed) : (db.setNodes p f).Keyed := by
  refine ⟨⟨?_, ?_, ?_⟩, hk.runIds⟩
  · rw [setNodes, map_updateWhere hf.id]
    exact hk.ids
  · intro n hn
    rcases mem_updateWhere.mp hn with ⟨x, hx, _, rfl⟩ | ⟨hn, _⟩
    · rw [hf.id]
      exact hk.fresh x hx
    · exact hk.fresh n hn
  · rw [setNodes, map_updateWhere hf.key]
    exact hk.keys

/-- A write of executions that keeps their status or starts or ends unfinished ones. -/
theorem sound_setNodes {p : NodeExecutionRow → Bool} {f : NodeExecutionRow → NodeExecutionRow}
    (hf : KeepsKeys f) (h : db.Keyed → ∀ n ∈ db.nodeExecutions, p n = true →
      (f n).status = n.status ∨ nodeTerminal n.status = false ∧ (f n).status ≠ .pending) :
    db.Sound (db.setNodes p f) := by
  intro hk
  refine ⟨setNodes_keyed hf hk, Evolves.refl RunAbsorbs.refl _, ?_⟩
  refine evolves_updateWhere NodeAbsorbs.refl fun n hn hp => ?_
  refine ⟨(hf.id n).symm, (hf.key n).symm, fun ht => ?_, fun hs => ?_⟩
  · rcases h hk n hn hp with heq | ⟨hopen, _⟩
    · exact heq
    · exact absurd (hopen.symm.trans ht) (by simp)
  · rcases h hk n hn hp with heq | ⟨_, hstarted⟩
    · exact heq ▸ hs
    · exact hstarted

theorem sound_setRuns {p : RunRow → Bool} {f : RunRow → RunRow} (hf : ∀ r, (f r).id = r.id)
    (h : db.Keyed → ∀ r ∈ db.runs, p r = true → RunAbsorbs r (f r)) :
    db.Sound (db.setRuns p f) := by
  intro hk
  refine ⟨⟨⟨hk.ids, hk.fresh, hk.keys⟩, ?_⟩, evolves_updateWhere RunAbsorbs.refl fun r hr hp => h hk r hr hp,
    Evolves.refl NodeAbsorbs.refl _⟩
  rw [setRuns, map_updateWhere hf]
  exact hk.runIds

theorem sound_setQueue (db : Db) (p : QueueRow → Bool) (phase : QueuePhase) :
    db.Sound (db.setQueue p phase) := sound_of_tables rfl rfl le_rfl

/-- A run that is neither terminal nor cancelling may take any status. -/
theorem runAbsorbs_of_open {r r' : RunRow} (hid : r'.id = r.id) (ht : r.status.isTerminal = false)
    (hc : r.status ≠ .cancelling) : RunAbsorbs r r' :=
  ⟨hid.symm, fun h => absurd (ht.symm.trans h) (by simp), fun h => absurd h hc⟩

theorem sound_updateNodeExecution (db : Db) (runId : ℕ) (nodeId : String) (iteration : ℤ)
    (update : NodeExecutionUpdate) :
    db.Sound (db.updateNodeExecution runId nodeId iteration update) := by
  refine sound_setNodes ⟨fun _ => rfl, fun _ => rfl⟩ fun _ n _ hp => Or.inr ⟨?_, update.started⟩
  simp only [Bool.and_eq_true, Bool.not_eq_true'] at hp
  exact hp.2

theorem sound_updateRunStatus (db : Db) (runId : ℕ) (status : WorkflowRunStatus)
    (outputText errorText : Option String) :
    db.Sound (db.updateRunStatus runId status outputText errorText) := by
  refine sound_setRuns (fun _ => rfl) fun _ r _ hp => ?_
  simp only [Bool.and_eq_true, Bool.not_eq_true', Bool.or_eq_true, decide_eq_true_eq] at hp
  refine ⟨rfl, fun ht => absurd (hp.1.2.symm.trans ht) (by simp), fun hc => ?_⟩
  rcases hp.2 with hne | hs
  · exact absurd hc hne
  · exact hs

theorem sound_skipPendingExecution (db : Db) (executionId : ℕ) :
    db.Sound (db.skipPendingExecution executionId) := by
  refine sound_setNodes ⟨fun _ => rfl, fun _ => rfl⟩ fun _ n _ hp => Or.inr ⟨?_, by simp⟩
  simp only [Bool.and_eq_true, decide_eq_true_eq] at hp
  rw [hp.2]
  rfl

theorem sound_setPendingNodes (db : Db) (runId : ℕ) {status : NodeExecutionStatus}
    (hstatus : status ≠ .pending) : db.Sound (db.setPendingNodes runId status) := by
  refine sound_setNodes ⟨fun _ => rfl, fun _ => rfl⟩ fun _ n _ hp => Or.inr ⟨?_, hstatus⟩
  simp only [Bool.and_eq_true, decide_eq_true_eq] at hp
  rw [hp.2]
  rfl

theorem sound_skipTarget (db : Db) (runId : ℕ) (nodeId : String) :
    db.Sound (db.skipTarget runId nodeId) := by
  rw [skipTarget]
  split
  · exact sound_skipPendingExecution _ _
  · exact Sound.refl db

theorem sound_foldl {α : Type} {step : Db → α → Db} (h : ∀ (db : Db) a, db.Sound (step db a))
    (l : List α) (db : Db) : db.Sound (l.foldl step db) := by
  induction l generalizing db with
  | nil => exact Sound.refl db
  | cons a rest ih => exact (h db a).trans (ih _)

theorem sound_foldlM {α : Type} {step : Db → α → Except String Db}
    (h : ∀ (db : Db) a db', step db a = .ok db' → db.Sound db') {l : List α} {db db' : Db}
    (hfold : l.foldlM step db = .ok db') : db.Sound db' :=
  foldlM_rel Sound.refl (fun _ _ _ h h' => h.trans h') h hfold

theorem sound_materializeNodeExecution {runId : ℕ} {node : WorkflowNode} {iteration : ℤ}
    (h : db.materializeNodeExecution runId node iteration = .ok db') : db.Sound db' := by
  rw [materializeNodeExecution] at h
  split_ifs at h with hnew
  obtain rfl := Except.ok.inj h
  intro hk
  refine ⟨⟨⟨?_, ?_, ?_⟩, hk.runIds⟩, Evolves.refl RunAbsorbs.refl _,
    evolves_append NodeAbsorbs.refl _ _⟩
  · rw [List.map_append, List.nodup_append']
    refine ⟨hk.ids, by simp, ?_⟩
    rw [List.disjoint_left]
    intro id hid hlast
    obtain ⟨n, hn, rfl⟩ := List.mem_map.mp hid
    simp only [List.map_cons, List.map_nil, List.mem_singleton] at hlast
    exact absurd hlast (hk.fresh n hn).ne
  · intro n hn
    rcases List.mem_append.mp hn with hn | hn
    · exact (hk.fresh n hn).trans (Nat.lt_succ_self _)
    · rw [List.mem_singleton.mp hn]
      exact Nat.lt_succ_self _
  · rw [List.map_append, List.nodup_append']
    refine ⟨hk.keys, by simp, ?_⟩
    rw [List.disjoint_left]
    intro key hkey hlast
    obtain ⟨n, hn, rfl⟩ := List.mem_map.mp hkey
    simp only [List.map_cons, List.map_nil, List.mem_singleton, Prod.mk.injEq] at hlast
    refine hnew (List.any_eq_true.mpr ⟨n, hn, ?_⟩)
    simp [hlast.1, hlast.2.1, hlast.2.2]

theorem sound_insertNodeExecution {runId : ℕ} {node : WorkflowNode} {iteration : ℤ}
    (h : db.insertNodeExecution runId node iteration = .ok db') : db.Sound db' := by
  rw [insertNodeExecution] at h
  split_ifs at h
  exact sound_materializeNodeExecution h

theorem highestIteration_mem {l : List NodeExecutionRow} {n : NodeExecutionRow}
    (h : highestIteration l = some n) : n ∈ l := by
  induction l generalizing n with
  | nil => simp [highestIteration] at h
  | cons m rest ih =>
    simp only [highestIteration] at h
    split at h
    · simp_all
    · rename_i x hx
      split_ifs at h
      · exact List.mem_cons_of_mem _ (Option.some.inj h ▸ ih hx)
      · simp_all

theorem claimCandidate_some {runId : ℕ} {nodeId : String} {expected : Option ℕ} {awaited : Awaited}
    {n : NodeExecutionRow} (h : db.claimCandidate runId nodeId expected awaited = some n) :
    n ∈ db.nodeExecutions ∧ n.runId = runId ∧ n.nodeId = nodeId ∧ n.status = awaited.status ∧
      ∃ r ∈ db.runs, r.id = runId ∧ r.status.isOpen = true := by
  rw [claimCandidate] at h
  split_ifs at h with hrun
  have hmem := List.mem_filter.mp (highestIteration_mem h)
  simp only [Bool.and_eq_true, beq_iff_eq, decide_eq_true_eq] at hmem
  obtain ⟨r, hr, hopen⟩ := List.any_eq_true.mp hrun
  simp only [Bool.and_eq_true, beq_iff_eq] at hopen
  exact ⟨hmem.1, hmem.2.1.1.1, hmem.2.1.1.2, hmem.2.1.2, r, hr, hopen⟩

theorem sound_setNode (db : Db) {n : NodeExecutionRow} (hn : n ∈ db.nodeExecutions)
    (hopen : nodeTerminal n.status = false) {status : NodeExecutionStatus}
    (hstatus : status ≠ .pending) (outputText errorText : Option String) :
    db.Sound (db.setNode n.id status outputText errorText) := by
  refine sound_setNodes ⟨fun _ => rfl, fun _ => rfl⟩ fun hk m hm hp => Or.inr ⟨?_, hstatus⟩
  have hid : m.id = n.id := by simpa using hp
  rw [List.inj_on_of_nodup_map hk.ids hm hn hid]
  exact hopen

theorem sound_setRun (db : Db) {r : RunRow} (hr : r ∈ db.runs) (hopen : r.status.isOpen = true)
    (status : WorkflowRunStatus) (errorText : Option String) :
    db.Sound (db.setRun r.id status errorText) := by
  refine sound_setRuns (fun _ => rfl) fun hk x hx hp => ?_
  have hid : x.id = r.id := by simpa using hp
  rw [List.inj_on_of_nodup_map hk.runIds hx hr hid]
  refine runAbsorbs_of_open rfl ?_ ?_
  · cases hs : r.status <;> simp_all [WorkflowRunStatus.isOpen, WorkflowRunStatus.isTerminal]
  · rintro hs
    simp [hs, WorkflowRunStatus.isOpen] at hopen

theorem skipTarget_runs (db : Db) (runId : ℕ) (nodeId : String) :
    (db.skipTarget runId nodeId).runs = db.runs := by
  rw [skipTarget]
  split
  · rfl
  · rfl

theorem skipTargets_runs (db : Db) (runId : ℕ) (targets : List String) :
    (targets.foldl (fun db target => db.skipTarget runId target) db).runs = db.runs := by
  induction targets generalizing db with
  | nil => rfl
  | cons t rest ih => rw [List.foldl_cons, ih, skipTarget_runs]

theorem sound_applyResponse (db : Db) {n : NodeExecutionRow} {r : RunRow}
    (hn : n ∈ db.nodeExecutions) (hopen : nodeTerminal n.status = false) (hr : r ∈ db.runs) (hrun : r.status.isOpen = true)
    (response : InteractionResponse) : db.Sound (db.applyResponse r.id n.id response) := by
  cases response with
  | arenaWinner candidateId => exact Sound.refl db
  | approve output =>
    exact (sound_setNode db hn hopen (by decide) _ _).trans
      (sound_setRun (db.setNode _ _ _ _) hr hrun _ _)
  | branch output skipped =>
    have hset := sound_setNode db hn hopen (show NodeExecutionStatus.succeeded ≠ .pending by decide)
      (some output) none
    refine hset.trans
      ((sound_foldl (fun db t => sound_skipTarget db r.id t) skipped _).trans
        (sound_setRun _ ?_ hrun _ _))
    rw [skipTargets_runs]
    exact hr
  | reject error =>
    exact (sound_setNode db hn hopen (by decide) _ _).trans
      ((sound_setPendingNodes _ r.id (by decide)).trans
      (sound_setRun ((db.setNode _ _ _ _).setPendingNodes _ _) hr hrun _ _))

theorem sound_claimInteraction (db : Db) (runId : ℕ) (nodeId : String) (expected : Option ℕ)
    (awaited : Awaited) (response : InteractionResponse) :
    db.Sound (db.claimInteraction runId nodeId expected awaited response).2 := by
  rw [claimInteraction]
  split
  · exact Sound.refl db
  · rename_i n hcand
    split_ifs
    · exact Sound.refl db
    · obtain ⟨hn, _, _, hs, r, hr, rfl, hopen⟩ := claimCandidate_some hcand
      have hterm : nodeTerminal n.status = false := by
        rw [hs]
        cases awaited <;> rfl
      have hrecord : db.Sound (db.recordResponse n.id response) := sound_of_tables rfl rfl le_rfl
      exact hrecord.trans (sound_applyResponse (db.recordResponse n.id response) hn hterm hr hopen
        response)

theorem sound_cancelSettledArenas (db : Db) (runId : ℕ) :
    db.Sound (db.cancelSettledArenas runId) := by
  refine sound_setNodes ⟨fun _ => rfl, fun _ => rfl⟩ fun _ n _ hp => Or.inr ⟨?_, by simp⟩
  simp only [Bool.and_eq_true, decide_eq_true_eq] at hp
  rw [hp.1.1.2]
  rfl

theorem sound_bindArena (db : Db) (runId : ℕ) (nodeId : String) (iteration : ℤ)
    (arenaGroupId : ℕ) : db.Sound (db.bindArena runId nodeId iteration arenaGroupId) :=
  sound_setNodes ⟨fun _ => rfl, fun _ => rfl⟩ fun _ _ _ _ => Or.inl rfl

theorem sound_failInterruptedArenas (db : Db) (runId : ℕ) :
    db.Sound (db.failInterruptedArenas runId).2 := by
  refine sound_setNodes ⟨fun _ => rfl, fun _ => rfl⟩ fun _ n _ hp => Or.inr ⟨?_, by simp⟩
  simp only [interruptedArena, Bool.and_eq_true, decide_eq_true_eq] at hp
  rw [hp.1.2]
  rfl

/-- A write of runs that have not started. -/
theorem sound_setRuns_of_open {p : RunRow → Bool} {f : RunRow → RunRow}
    (hf : ∀ r, (f r).id = r.id) (h : ∀ r, p r = true → r.status = .pending ∨ r.status = .running) :
    db.Sound (db.setRuns p f) := by
  refine sound_setRuns hf fun _ r _ hp => runAbsorbs_of_open (hf r) ?_ ?_
  · rcases h r hp with hs | hs
    · rw [hs]
      rfl
    · rw [hs]
      rfl
  · rcases h r hp with hs | hs
    · simp [hs]
    · simp [hs]

theorem sound_startRun (db : Db) (runId : ℕ) : db.Sound (db.startRun runId).2 := by
  refine sound_setRuns_of_open (fun _ => rfl) fun r hp => Or.inl ?_
  simp only [Bool.and_eq_true, decide_eq_true_eq] at hp
  exact hp.1.2

theorem sound_resetRunPending (db : Db) (runId : ℕ) : db.Sound (db.resetRunPending runId) := by
  refine sound_setRuns_of_open (fun _ => rfl) fun r hp => Or.inr ?_
  simp only [Bool.and_eq_true, decide_eq_true_eq] at hp
  exact hp.2

/-- A write of runs that keeps their status. -/
theorem sound_setRuns_of_status {p : RunRow → Bool} {f : RunRow → RunRow}
    (hf : ∀ r, (f r).id = r.id ∧ (f r).status = r.status) : db.Sound (db.setRuns p f) :=
  sound_setRuns (fun r => (hf r).1) fun _ r _ _ =>
    ⟨(hf r).1.symm, fun _ => (hf r).2, fun hc => Or.inl ((hf r).2.trans hc)⟩

theorem sound_claimNext (db : Db) : db.Sound db.claimNext.2 := by
  rw [claimNext]
  split
  · exact Sound.refl db
  · exact sound_of_tables rfl rfl le_rfl

theorem sound_cancelQueued (db : Db) (runId : ℕ) : db.Sound (db.cancelQueued runId).2 := by
  rw [cancelQueued]
  split_ifs
  · refine (sound_setQueue db (db.pendingUnclaimed runId) .finished).trans
      (Sound.trans ?_ (sound_setPendingNodes _ _ (by decide)))
    refine sound_setRuns_of_open (fun _ => rfl) fun r hp => Or.inl ?_
    simp only [Bool.and_eq_true, decide_eq_true_eq] at hp
    exact hp.2
  · exact Sound.refl db

theorem sound_releaseTerminal (db : Db) (runId : ℕ) : db.Sound (db.releaseTerminal runId).2 := by
  rw [releaseTerminal]
  split_ifs
  · exact sound_of_tables rfl rfl le_rfl
  · exact Sound.refl db

theorem sound_enterFlight (db : Db) (runId : ℕ) : db.Sound (db.enterFlight runId).2 := by
  rw [enterFlight]
  split_ifs
  · exact Sound.refl db
  · exact sound_of_tables rfl rfl le_rfl

theorem sound_insertRun {run : RunRow} (hnew : db.run? run.id = none) :
    db.Sound (db.insertRun run) := by
  intro hk
  refine ⟨⟨⟨hk.ids, hk.fresh, hk.keys⟩, ?_⟩, evolves_append RunAbsorbs.refl _ _,
    Evolves.refl NodeAbsorbs.refl _⟩
  rw [insertRun, List.map_append, List.nodup_append']
  refine ⟨hk.runIds, by simp, ?_⟩
  rw [List.disjoint_left]
  intro id hid hlast
  obtain ⟨r, hr, rfl⟩ := List.mem_map.mp hid
  simp only [List.map_cons, List.map_nil, List.mem_singleton] at hlast
  simp only [run?, List.find?_eq_none, decide_eq_true_eq] at hnew
  exact hnew r hr hlast

theorem sound_materializeAll {runId : ℕ} {nodes : List WorkflowNode}
    (h : db.materializeAll runId nodes = .ok db') : db.Sound db' :=
  sound_foldlM (fun _ _ _ h => sound_materializeNodeExecution h) h

theorem sound_enqueue {runId projectId : ℕ} {phase : QueuePhase}
    (h : db.enqueue runId projectId phase = .ok db') : db.Sound db' := by
  rw [enqueue] at h
  split_ifs at h
  obtain rfl := Except.ok.inj h
  exact sound_of_tables rfl rfl le_rfl

theorem sound_initializeRun {runId : ℕ} {attemptId : Option ℕ} {projectId : ℕ}
    {graph : WorkflowGraph} {inputText : String} {queueProjectId : Option ℕ} {phase : QueuePhase}
    {affected : Option (List String)} (h : db.initializeRun runId attemptId projectId graph
      inputText queueProjectId phase affected = .ok db') : db.Sound db' := by
  rcases initializeRun_cases h with ⟨_, rfl⟩ | ⟨hnew, mid, hmid, hend⟩
  · exact Sound.refl _
  · have hcreate : db.Sound mid := (sound_insertRun hnew).trans (sound_materializeAll hmid)
    rcases hend with ⟨_, rfl⟩ | ⟨project, _, hqueue⟩
    · exact hcreate
    · exact hcreate.trans (sound_enqueue hqueue)

theorem sound_insertReuse {runId : ℕ} {binding : ReuseBinding}
    (h : db.insertReuse runId binding = .ok db') : db.Sound db' := by
  obtain ⟨_, _, rfl⟩ := insertReuse_ok h
  exact sound_of_tables rfl rfl le_rfl

theorem sound_insertDisposition {runId : ℕ} {nodeId : String}
    (h : db.insertDisposition runId nodeId = .ok db') : db.Sound db' := by
  rw [insertDisposition_ok h]
  exact sound_of_tables rfl rfl le_rfl

theorem sound_applyRunPlan {runId : ℕ} {graph : WorkflowGraph} {plan : ReworkPlan}
    (h : db.applyRunPlan runId graph plan = .ok db') : db.Sound db' := by
  rw [applyRunPlan] at h
  obtain ⟨db₁, h₁, h⟩ := except_bind_ok h
  obtain ⟨db₂, h₂, h⟩ := except_bind_ok h
  obtain ⟨db₃, h₃, h⟩ := except_bind_ok h
  obtain rfl := Except.ok.inj h
  exact (sound_foldlM (fun _ _ _ h => sound_insertReuse h) h₁).trans
    ((sound_foldlM (fun _ _ _ h => sound_insertDisposition h) h₂).trans
      ((sound_materializeAll h₃).trans (sound_of_tables rfl rfl le_rfl)))

section
variable {fromStr : String → Option Json}

theorem sound_fixRunPlan {runId : ℕ} {graph : WorkflowGraph} {roots : Option (List String)}
    {sourceRunId : Option ℕ} (h : db.fixRunPlan fromStr runId graph roots sourceRunId = .ok db') :
    db.Sound db' := by
  rw [fixRunPlan] at h
  split at h
  · exact sound_applyRunPlan h
  · obtain rfl := Except.ok.inj h
    have hplanning : db.Sound (db.setPlanning runId .failed none) :=
      sound_of_tables rfl rfl le_rfl
    refine hplanning.trans (Sound.trans ?_ (sound_setQueue _ _ _))
    refine sound_setRuns_of_open (fun _ => rfl) fun r hp => Or.inl ?_
    simp only [Bool.and_eq_true, decide_eq_true_eq] at hp
    exact hp.2

theorem sound_resolveWaiting {runId : ℕ} (h : db.resolveWaiting fromStr runId = .ok db') :
    db.Sound db' := by
  rcases resolveWaiting_cases fromStr h with rfl | ⟨_, _, _, mid, _, _, _, _, hmid, rfl⟩
  · exact Sound.refl _
  · exact (sound_fixRunPlan hmid).trans (sound_setQueue _ _ _)

theorem sound_submissionInstance {scope : SubmissionScope} {instanceId : ℕ}
    {graph : WorkflowGraph} (h : db.submissionInstance scope = .ok (instanceId, graph, db')) :
    db.Sound db' := by
  obtain ⟨_, _, hid, rfl⟩ := submissionInstance_tables h
  exact sound_of_tables rfl rfl hid

theorem sound_insertSubmission {row : SubmissionRow} (h : db.insertSubmission row = .ok db') :
    db.Sound db' := by
  rw [insertSubmission_ok h]
  exact sound_of_tables rfl rfl le_rfl

theorem sound_insertStopIntent (db : Db) (callerNamespace requestId : String) (runId : ℕ)
    (successorRunId : Option ℕ) :
    db.Sound (db.insertStopIntent callerNamespace requestId runId successorRunId) :=
  sound_of_tables rfl rfl (Nat.le_succ _)

theorem sound_stopSource {scope : SubmissionScope} {submission : WorkflowSubmission} {runId : ℕ}
    {plan : Option ReworkPlan} (h : db.stopSource scope submission runId plan = .ok db') :
    db.Sound db' := by
  rcases stopSource_cases h with rfl | ⟨source, _, rfl⟩
  · exact Sound.refl _
  · exact (sound_insertStopIntent db _ _ _ _).trans (sound_cancelQueued _ _)

theorem sound_submit {scope : SubmissionScope} {submission : WorkflowSubmission} {runId id : ℕ}
    (h : db.submit fromStr scope submission runId = .ok (id, db')) : db.Sound db' := by
  rcases submit_cases fromStr h with ⟨_, _, _, _, rfl⟩ |
    ⟨_, _, _, _, _, _, _, db₀, _, _, db₁, db₂, db₃, _, h₀, _, h₁, h₂, h₃, hend⟩
  · exact Sound.refl _
  · have hsound : db.Sound db₃ := (sound_submissionInstance h₀).trans
      ((sound_initializeRun h₁).trans ((sound_insertSubmission h₂).trans (sound_stopSource h₃)))
    rcases hend with ⟨_, rfl⟩ | ⟨_, _, hplan⟩
    · exact hsound
    · exact hsound.trans (sound_applyRunPlan hplan)

theorem sound_cancelAll (db : Db) (runIds : List ℕ) : db.Sound (db.cancelAll runIds).2 := by
  induction runIds generalizing db with
  | nil => exact Sound.refl db
  | cons id rest ih => exact (sound_cancelQueued db id).trans (ih _)

theorem sound_stop {callerNamespace requestId : String} {instanceId runId : ℕ}
    (h : db.stop callerNamespace instanceId runId requestId = .ok db') : db.Sound db' := by
  rcases stop_cases h with rfl | ⟨_, _, nextId, hid, rfl⟩
  · exact Sound.refl _
  · exact (sound_cancelAll db (db.waitingSuccessors instanceId runId)).trans
      ((sound_cancelQueued _ runId).trans (sound_of_tables rfl rfl hid))

end

theorem sound_orchestration (h : OrchestrationMoves db db') : db.Sound db' := by
  obtain ⟨o, rfl⟩ := h
  exact sound_of_tables rfl rfl le_rfl

theorem sound_port {call : Port} (h : call.Moves db db') : db.Sound db' := by
  cases call with
  | createArena runId nodeId iteration =>
    rcases h with h | ⟨group, h⟩
    · exact sound_orchestration h
    · exact (sound_bindArena db runId nodeId iteration group).trans (sound_orchestration h)
  | _ => exact sound_orchestration h

end Db

/-- Every statement of every operation is sound. -/
theorem Stmt.Exec.sound {fromStr : String → Option Json} {s : Stmt} {db db' : Db} {a : s.Ans}
    (h : s.Exec fromStr db a db') : db.Sound db' := by
  cases s with
  | read β f => exact run_snd h ▸ Db.Sound.refl db
  | port call => exact Db.sound_port h
  | updateNodeExecution => exact run_snd h ▸ Db.sound_updateNodeExecution db _ _ _ _
  | updateRunStatus => exact run_snd h ▸ Db.sound_updateRunStatus db _ _ _ _
  | skipPendingExecution => exact run_snd h ▸ Db.sound_skipPendingExecution db _
  | setPendingNodes => exact run_snd h ▸ Db.sound_setPendingNodes db _ (by decide)
  | insertNodeExecution =>
    rcases commit_ok h with h | rfl
    · exact Db.sound_insertNodeExecution h
    · exact Db.Sound.refl _
  | claimInteraction => exact run_snd h ▸ Db.sound_claimInteraction db _ _ _ _ _
  | cancelSettledArenas => exact run_snd h ▸ Db.sound_cancelSettledArenas db _
  | failInterruptedArenas => exact run_snd h ▸ Db.sound_failInterruptedArenas db _
  | startRun => exact run_snd h ▸ Db.sound_startRun db _
  | resetRunPending => exact run_snd h ▸ Db.sound_resetRunPending db _
  | setOrchestrationRun =>
    exact run_snd h ▸ Db.sound_setRuns_of_status fun _ => ⟨rfl, rfl⟩
  | repairOrchestrationRun =>
    exact run_snd h ▸ Db.sound_setRuns_of_status fun _ => ⟨rfl, rfl⟩
  | claimNext => exact run_snd h ▸ Db.sound_claimNext db
  | cancelQueued => exact run_snd h ▸ Db.sound_cancelQueued db _
  | releaseTerminal => exact run_snd h ▸ Db.sound_releaseTerminal db _
  | setQueueActive => exact run_snd h ▸ Db.sound_setQueue db _ _
  | resumeQueueActive => exact run_snd h ▸ Db.sound_setQueue db _ _
  | setQueueStarting => exact run_snd h ▸ Db.sound_setQueue db _ _
  | enterFlight => exact run_snd h ▸ Db.sound_enterFlight db _
  | leaveFlight => exact run_snd h ▸ Db.sound_of_tables rfl rfl le_rfl
  | initializeRun =>
    rcases commit_ok h with h | rfl
    · exact Db.sound_initializeRun h
    · exact Db.Sound.refl _
  | submit =>
    rcases commitWith_ok h with ⟨_, h⟩ | rfl
    · exact Db.sound_submit h
    · exact Db.Sound.refl _
  | resolveWaiting =>
    rcases commit_ok h with h | rfl
    · exact Db.sound_resolveWaiting h
    · exact Db.Sound.refl _
  | stop =>
    rcases commit_ok h with h | rfl
    · exact Db.sound_stop h
    · exact Db.Sound.refl _
  | deliverIntent => exact run_snd h ▸ Db.sound_of_tables rfl rfl le_rfl
  | syncAttempt => exact run_snd h ▸ Db.sound_of_tables rfl rfl le_rfl
  | never => exact nomatch a

/-- Interleavings keep the keys and all terminal statuses. -/
theorem Interleaves.sound {config : Config} {guard : Stmt → Db → Bool} {w w' : System}
    (h : Interleaves config guard w w') : w.state.Sound w'.state :=
  Steps.rel Db.Sound.refl (fun _ _ _ h h' => h.trans h') (fun _ _ _ _ _ h => h.sound)
    (fun _ _ h => Db.sound_orchestration h) h

/-- Over any interleaving, a finished run keeps its status, a cancelling one stays or becomes
canceled, and a finished execution keeps its status. -/
theorem terminal_absorption {config : Config} {db : Db} (hkeys : db.Keyed) {w w' : System}
    (hbefore : Interleaves config unguarded (.start db) w)
    (hafter : Interleaves config unguarded w w') :
    (∀ runId status, w.state.runStatus? runId = some status →
      (status.isTerminal = true → w'.state.runStatus? runId = some status) ∧
      (status = .cancelling → w'.state.runStatus? runId = some .cancelling ∨
        w'.state.runStatus? runId = some .canceled)) ∧
    ∀ executionId status, w.state.nodeStatus? executionId = some status →
      nodeTerminal status = true → w'.state.nodeStatus? executionId = some status := by
  have hmid := (hbefore.sound hkeys).1
  obtain ⟨_, hruns, _⟩ := hafter.sound hmid
  constructor
  · intro runId status hs
    obtain ⟨r, hr, rfl⟩ := Option.map_eq_some_iff.mp hs
    obtain ⟨r', hr', habs⟩ := hruns.find_key RunRow.id (fun _ _ h => h.id) hr
    have hs' : w'.state.runStatus? runId = some r'.status := by
      rw [Db.runStatus?, Db.run?, hr']
      rfl
    rw [hs']
    refine ⟨fun ht => by rw [habs.terminal ht], fun hc => ?_⟩
    rcases habs.cancelling hc with h | h
    · exact Or.inl (by rw [h])
    · exact Or.inr (by rw [h])
  · intro executionId status hs ht
    exact hafter.sound.nodeStatus hmid hs ht

section Fixture

/-- A run whose End has not been reached. -/
def startedDb : Db := { Db.empty with
  runs := [⟨1, none, 0, straightGraph, "input", .running, none, none, none⟩]
  nodeExecutions := [⟨0, 1, "start", .start, 0, .succeeded, some "input", none, none⟩,
    ⟨1, 1, "end", .end, 0, .pending, none, none, none⟩]
  nextId := 2 }

/-- Two drives of the run and its cancellation. -/
def drivesAndCancel : List (Program Unit) :=
  [driveWorkflowRun Config.plain 1 straightGraph "input" 4,
    driveWorkflowRun Config.plain 1 straightGraph "input" 4, cancelWorkflowRun 1]

theorem drivesAndCancel_operation : ∀ p ∈ drivesAndCancel, Operation Config.plain p := by
  intro p hp
  simp only [drivesAndCancel, List.mem_cons, List.not_mem_nil, or_false] at hp
  rcases hp with rfl | rfl | rfl
  · exact Operation.drive 4 1 straightGraph "input"
  · exact Operation.drive 4 1 straightGraph "input"
  · exact Operation.cancel 1

/-- The status that a statement asks for. -/
def Stmt.nodeStatus? : Stmt → Option NodeExecutionStatus
  | updateNodeExecution _ _ _ _ update => some update.status
  | _ => none

def Stmt.runStatus? : Stmt → Option WorkflowRunStatus
  | updateRunStatus _ status _ _ => some status
  | _ => none

/-- Both drives have planned when the run is cancelled. One of them then marks the End as running and
as succeeded, the other one the run as succeeded, and none of it takes effect. -/
theorem terminal_absorption_late : ∃ w w' : System, ∃ new,
    Interleaves Config.plain unguarded (.start startedDb) w ∧
      Interleaves Config.plain unguarded w w' ∧ w'.trace = new ++ w.trace ∧
      w.state.runStatus? 1 = some .canceled ∧ w.state.nodeStatus? 1 = some .cancelled ∧
      new.filterMap (·.1.nodeStatus?) = [.succeeded, .running] ∧
      new.filterMap (·.1.runStatus?) = [.succeeded] ∧
      w'.state.runStatus? 1 = some .canceled ∧ w'.state.nodeStatus? 1 = some .cancelled := by
  have hkeys : startedDb.Keyed := ⟨⟨by decide, by decide, by decide⟩, by decide⟩
  have hstart := start_interleaves unguarded startedDb drivesAndCancel_operation
  obtain ⟨w, hw, hrun, hnode, w', hw', new, hnew, hnodes, hruns⟩ : ∃ w : System,
      follow (Stmt.accept Config.plain unguarded)
        (List.replicate 7 0 ++ List.replicate 5 1 ++ List.replicate 14 2)
        ⟨[], startedDb, drivesAndCancel⟩ = some w ∧
      w.state.runStatus? 1 = some .canceled ∧ w.state.nodeStatus? 1 = some .cancelled ∧
      ∃ w' : System, follow (Stmt.accept Config.plain unguarded)
        (List.replicate 4 0 ++ List.replicate 3 1) w = some w' ∧
      ∃ new, w'.trace = new ++ w.trace ∧ new.filterMap (·.1.nodeStatus?) = [.succeeded, .running] ∧
        new.filterMap (·.1.runStatus?) = [.succeeded] :=
    ⟨_, rfl, rfl, rfl, _, rfl, [_, _, _, _, _, _, _], rfl, rfl, rfl⟩
  have hbefore := hstart.trans (follow_interleaves hw)
  have hafter : Interleaves Config.plain unguarded w w' := follow_interleaves hw'
  obtain ⟨hstays, hstaysNode⟩ := terminal_absorption hkeys hbefore hafter
  exact ⟨w, w', new, hbefore, hafter, hnew, hrun, hnode, hnodes, hruns,
    (hstays 1 .canceled hrun).1 rfl, hstaysNode 1 .cancelled hnode rfl⟩

end Fixture

end VibeKanban.Runtime
