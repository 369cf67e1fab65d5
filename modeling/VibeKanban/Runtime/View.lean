import VibeKanban.Runtime.Absorption
import VibeKanban.Runtime.Board

/-! The board of a run as a view of the database: what the statements of a pass do to the tables
is a write or an insertion on the board. -/
namespace VibeKanban.Runtime
open Lib Workflow

/-- What an update of an execution does to its snapshot. -/
def NodeExecutionUpdate.apply (update : NodeExecutionUpdate)
    (e : NodeExecutionSnapshot) : NodeExecutionSnapshot :=
  { e with
    status := update.status
    outputText := update.outputText.or e.outputText
    errorText := update.errorText }

namespace Db
variable {db db' : Db} {runId : ℕ}

def board (db : Db) (runId : ℕ) : Board where
  own := (db.ownExecutions runId).map (·.snapshot)
  reused := (db.reusedExecutions runId).map (·.snapshot)
  affected := db.submittedAffectedNodes runId

/-- The results a run reuses belong to executions of other runs. -/
def Lineage (db : Db) (runId : ℕ) : Prop :=
  ∀ r ∈ db.reuse, r.runId = runId → r.sourceNodeExecutionId < db.nextId ∧
    ∀ n ∈ db.nodeExecutions, n.id = r.sourceNodeExecutionId → n.runId ≠ runId

/-- The database shows a board and the status of its run. -/
structure Shows (db : Db) (runId : ℕ) (b : Board) (status : WorkflowRunStatus) : Prop where
  keyed : db.Keyed
  lineage : db.Lineage runId
  board : db.board runId = b
  status : db.runStatus? runId = some status

theorem ownExecutions_setNodes {p : NodeExecutionRow → Bool}
    {f : NodeExecutionRow → NodeExecutionRow} (hf : KeepsKeys f) :
    (db.setNodes p f).ownExecutions runId = updateWhere p f (db.ownExecutions runId) := by
  unfold ownExecutions setNodes updateWhere
  rw [List.filter_map]
  congr 1
  refine List.filter_congr fun n _ => ?_
  rw [Function.comp_apply]
  split_ifs
  · rw [(Prod.mk.inj (hf.key n)).1]
  · rfl

/-- A write of own executions leaves the reused ones alone. -/
theorem reusedExecutions_setNodes {p : NodeExecutionRow → Bool}
    {f : NodeExecutionRow → NodeExecutionRow} (hf : KeepsKeys f) (hlineage : db.Lineage runId)
    (hp : ∀ n ∈ db.nodeExecutions, p n = true → n.runId = runId) :
    (db.setNodes p f).reusedExecutions runId = db.reusedExecutions runId := by
  unfold reusedExecutions
  refine List.flatMap_congr fun r hr => ?_
  obtain ⟨hr, hrun⟩ := List.mem_filter.mp hr
  congr 1
  unfold setNodes updateWhere
  rw [List.filter_map]
  have hsame : (db.nodeExecutions.filter ((fun n => n.id == r.sourceNodeExecutionId) ∘
      fun n => if p n then f n else n)) =
      db.nodeExecutions.filter fun n => n.id == r.sourceNodeExecutionId := by
    refine List.filter_congr fun n _ => ?_
    rw [Function.comp_apply]
    split_ifs
    · rw [hf.id]
    · rfl
  rw [hsame]
  refine (List.map_congr_left fun n hn => ?_).trans (List.map_id _)
  obtain ⟨hn, hid⟩ := List.mem_filter.mp hn
  have hforeign := (hlineage r hr (by simpa using hrun)).2 n hn (by simpa using hid)
  rw [if_neg fun hpn => hforeign (hp n hn hpn)]
  rfl

theorem lineage_setNodes {p : NodeExecutionRow → Bool} {f : NodeExecutionRow → NodeExecutionRow}
    (hf : KeepsKeys f) (h : db.Lineage runId) : (db.setNodes p f).Lineage runId := by
  intro r hr hrun
  refine ⟨(h r hr hrun).1, fun n hn hid => ?_⟩
  rcases mem_updateWhere.mp hn with ⟨x, hx, _, rfl⟩ | ⟨hn, _⟩
  · rw [(Prod.mk.inj (hf.key x)).1]
    exact (h r hr hrun).2 x hx (by rw [← hid, hf.id])
  · exact (h r hr hrun).2 n hn hid

section Shows
variable {b : Board} {status : WorkflowRunStatus}

/-- Other tables do not show. -/
theorem Shows.of_tables (h : db.Shows runId b status) (hkeyed : db'.Keyed)
    (hn : db'.nodeExecutions = db.nodeExecutions) (hr : db'.reuse = db.reuse)
    (hs : db'.submissions = db.submissions) (hid : db'.nextId = db.nextId)
    (hruns : db'.runs = db.runs) : db'.Shows runId b status := by
  refine ⟨hkeyed, ?_, ?_, ?_⟩
  · unfold Lineage
    rw [hn, hr, hid]
    exact h.lineage
  · rw [← h.board]
    unfold Db.board reusedExecutions ownExecutions submittedAffectedNodes
    rw [hn, hr, hs]
  · rw [← h.status]
    unfold runStatus? run?
    rw [hruns]

/-- A write of own executions is a write of their snapshots. -/
theorem Shows.setNodes (h : db.Shows runId b status) {p : NodeExecutionRow → Bool}
    {f : NodeExecutionRow → NodeExecutionRow} {q : NodeExecutionSnapshot → Bool}
    {g : NodeExecutionSnapshot → NodeExecutionSnapshot} (hf : KeepsKeys f)
    (hp : ∀ n ∈ db.nodeExecutions, p n = true → n.runId = runId)
    (hq : ∀ n ∈ db.ownExecutions runId, (if p n then f n else n).snapshot =
      if q n.snapshot then g n.snapshot else n.snapshot) :
    (db.setNodes p f).Shows runId { b with own := updateWhere q g b.own } status := by
  refine ⟨setNodes_keyed hf h.keyed, lineage_setNodes hf h.lineage, ?_, h.status⟩
  rw [← h.board]
  unfold Db.board
  rw [ownExecutions_setNodes hf, reusedExecutions_setNodes hf h.lineage hp]
  congr 1
  unfold updateWhere
  rw [List.map_map, List.map_map]
  exact List.map_congr_left hq

/-- The own execution of a node and iteration is the only one. -/
theorem Shows.own_unique (h : db.Shows runId b status) {n m : NodeExecutionRow}
    (hn : n ∈ db.ownExecutions runId) (hm : m ∈ db.ownExecutions runId)
    (hnode : n.nodeId = m.nodeId) (hiteration : n.iteration = m.iteration) : n = m := by
  obtain ⟨hn, hrun⟩ := mem_ownExecutions.mp hn
  obtain ⟨hm, hrun'⟩ := mem_ownExecutions.mp hm
  refine List.inj_on_of_nodup_map h.keyed.keys hn hm ?_
  rw [hrun, hrun', hnode, hiteration]

theorem Shows.updateNodeExecution (h : db.Shows runId b status) (nodeId : String) (iteration : ℤ)
    (update : NodeExecutionUpdate) :
    (db.updateNodeExecution runId nodeId iteration update).Shows runId
      (b.put nodeId iteration update.apply) status := by
  refine h.setNodes ⟨fun _ => rfl, fun _ => rfl⟩ (fun n _ hp => ?_) fun n hn => ?_
  · simp only [Bool.and_eq_true, beq_iff_eq] at hp
    exact hp.1.1.1
  · have hrun : n.runId = runId := (mem_ownExecutions.mp hn).2
    have hopen : (n.runId == runId && n.nodeId == nodeId && n.iteration == iteration &&
        !nodeTerminal n.status) = openAt nodeId iteration n.snapshot := by
      simp [openAt, hrun, NodeExecutionRow.snapshot]
    rw [hopen]
    split_ifs
    · rfl
    · rfl

/-- A write of one open execution by its identity. -/
theorem Shows.setRow (h : db.Shows runId b status) {n : NodeExecutionRow}
    (hn : n ∈ db.ownExecutions runId) (hopen : nodeTerminal n.status = false)
    {p : NodeExecutionRow → Bool} {f : NodeExecutionRow → NodeExecutionRow}
    {g : NodeExecutionSnapshot → NodeExecutionSnapshot} (hf : KeepsKeys f)
    (hp : ∀ m ∈ db.nodeExecutions, p m = true ↔ m = n)
    (hg : ∀ m : NodeExecutionRow, (f m).snapshot = g m.snapshot) :
    (db.setNodes p f).Shows runId (b.put n.nodeId n.iteration g) status := by
  obtain ⟨hmem, hrun⟩ := mem_ownExecutions.mp hn
  refine h.setNodes hf (fun m hm hpm => ?_) fun m hm => ?_
  · rw [(hp m hm).mp hpm, hrun]
  · have hiff : p m = true ↔ openAt n.nodeId n.iteration m.snapshot = true := by
      rw [hp m (mem_ownExecutions.mp hm).1, openAt_iff]
      constructor
      · rintro rfl
        exact ⟨rfl, rfl, hopen⟩
      · rintro ⟨hnode, hiteration, _⟩
        exact h.own_unique hm hn hnode hiteration
    by_cases hpm : p m = true
    · rw [if_pos hpm, if_pos (hiff.mp hpm)]
      exact hg m
    · rw [if_neg hpm, if_neg fun ho => hpm (hiff.mpr ho)]

theorem Shows.skipPendingExecution (h : db.Shows runId b status) {n : NodeExecutionRow}
    (hn : n ∈ db.ownExecutions runId) (hpending : n.status = .pending) :
    (db.skipPendingExecution n.id).Shows runId
      (b.put n.nodeId n.iteration fun e => { e with status := .skipped }) status := by
  refine h.setRow hn (by rw [hpending]; rfl) ⟨fun _ => rfl, fun _ => rfl⟩ (fun m hm => ?_)
    fun _ => rfl
  simp only [Bool.and_eq_true, beq_iff_eq, decide_eq_true_eq]
  constructor
  · rintro ⟨hid, _⟩
    exact List.inj_on_of_nodup_map h.keyed.ids hm (mem_ownExecutions.mp hn).1 hid
  · rintro rfl
    exact ⟨rfl, hpending⟩

theorem Shows.setNode (h : db.Shows runId b status) {n : NodeExecutionRow}
    (hn : n ∈ db.ownExecutions runId) (hopen : nodeTerminal n.status = false)
    (next : NodeExecutionStatus) (outputText errorText : Option String) :
    (db.setNode n.id next outputText errorText).Shows runId (b.put n.nodeId n.iteration fun e =>
      { e with status := next, outputText := outputText, errorText := errorText }) status := by
  refine h.setRow hn hopen ⟨fun _ => rfl, fun _ => rfl⟩ (fun m hm => ?_) fun _ => rfl
  rw [beq_iff_eq]
  constructor
  · exact List.inj_on_of_nodup_map h.keyed.ids hm (mem_ownExecutions.mp hn).1
  · rintro rfl
    rfl

/-- A new row is a new execution on the board, with a key of its own. -/
theorem Shows.insertNodeExecution (h : db.Shows runId b status) {node : WorkflowNode}
    {iteration : ℤ} (hinsert : db.insertNodeExecution runId node iteration = .ok db') :
    db'.Shows runId (b.insert node.id iteration) status ∧
      ∀ e ∈ b.own, (e.nodeId, e.iteration) ≠ (node.id, iteration) := by
  have hkeyed := (sound_insertNodeExecution hinsert h.keyed).1
  unfold Db.insertNodeExecution at hinsert
  split_ifs at hinsert
  unfold materializeNodeExecution at hinsert
  split_ifs at hinsert with hexists
  obtain rfl := Except.ok.inj hinsert
  have hreused : ∀ r ∈ db.reuse, r.runId = runId → r.sourceNodeExecutionId ≠ db.nextId :=
    fun r hr hrun => (h.lineage r hr hrun).1.ne
  refine ⟨⟨hkeyed, ?_, ?_, h.status⟩, ?_⟩
  · intro r hr hrun
    refine ⟨Nat.lt_succ_of_lt (h.lineage r hr hrun).1, fun n hn hid => ?_⟩
    rcases List.mem_append.mp hn with hn | hn
    · exact (h.lineage r hr hrun).2 n hn hid
    · rw [List.mem_singleton.mp hn] at hid
      exact absurd hid.symm (hreused r hr hrun)
  · rw [← h.board]
    unfold Db.board Board.insert
    congr 1
    · unfold ownExecutions
      rw [List.filter_append, List.map_append]
      simp [NodeExecutionRow.snapshot]
    · congr 1
      unfold reusedExecutions
      refine List.flatMap_congr fun r hr => ?_
      obtain ⟨hr, hrun⟩ := List.mem_filter.mp hr
      have hne := hreused r hr (by simpa using hrun)
      rw [List.filter_append]
      simp [hne.symm]
  · rw [← h.board]
    intro e he hkey
    obtain ⟨n, hn, rfl⟩ := List.mem_map.mp he
    obtain ⟨hn, hrun⟩ := mem_ownExecutions.mp hn
    apply hexists
    rw [List.any_eq_true]
    obtain ⟨hnode, hiteration⟩ := Prod.mk.inj hkey
    exact ⟨n, hn, by simpa [hrun] using ⟨hnode, hiteration⟩⟩

theorem Shows.orchestration (h : db.Shows runId b status) (hmove : OrchestrationMoves db db') :
    db'.Shows runId b status := by
  have hkeyed := (sound_orchestration hmove h.keyed).1
  obtain ⟨o, rfl⟩ := hmove
  exact h.of_tables hkeyed rfl rfl rfl rfl rfl

/-- An Arena is bound to an own execution without a trace on the board. -/
theorem Shows.bindArena (h : db.Shows runId b status) (nodeId : String) (iteration : ℤ)
    (arenaGroupId : ℕ) : (db.bindArena runId nodeId iteration arenaGroupId).Shows runId b status := by
  have hsame : updateWhere (fun _ => false) id b.own = b.own := by simp [updateWhere]
  have hshows : (db.bindArena runId nodeId iteration arenaGroupId).Shows runId
      { b with own := updateWhere (fun _ => false) id b.own } status := by
    refine h.setNodes ⟨fun _ => rfl, fun _ => rfl⟩ (fun n _ hp => ?_) fun n _ => ?_
    · simp only [Bool.and_eq_true, beq_iff_eq] at hp
      exact hp.1.1.1
    · rw [if_neg Bool.false_ne_true]
      split_ifs
      · rfl
      · rfl
  rwa [hsame] at hshows

theorem Shows.port (h : db.Shows runId b status) {call : Port} (hmove : call.Moves db db')
    (hown : ∀ id nodeId iteration, call = .createArena id nodeId iteration → id = runId) :
    db'.Shows runId b status := by
  cases call with
  | createArena id nodeId iteration =>
    obtain rfl := hown id nodeId iteration rfl
    rcases hmove with hmove | ⟨group, hmove⟩
    · exact h.orchestration hmove
    · exact (h.bindArena nodeId iteration group).orchestration hmove
  | _ => exact h.orchestration hmove

/-- A write of the run does not show on its board. -/
theorem Shows.setRuns (h : db.Shows runId b status) {p : RunRow → Bool} {f : RunRow → RunRow}
    (hkeyed : (db.setRuns p f).Keyed) (hf : ∀ r, (f r).id = r.id) {next : WorkflowRunStatus}
    (hnext : ∀ r ∈ db.runs, r.id = runId → r.status = status →
      (if p r then f r else r).status = next) : (db.setRuns p f).Shows runId b next := by
  refine ⟨hkeyed, h.lineage, h.board, ?_⟩
  obtain ⟨r, hr, hs⟩ := Option.map_eq_some_iff.mp h.status
  have hfind := find_updateWhere RunRow.id (p := p) hf db.runs runId
  unfold runStatus? run? Db.setRuns
  rw [hfind, show db.runs.find? (fun r => r.id = runId) = some r from hr]
  have hid : r.id = runId := by simpa using List.find?_some hr
  exact congrArg some (hnext r (List.mem_of_find?_eq_some hr) hid hs)

theorem Shows.updateRunStatus (h : db.Shows runId b status) (hopen : status.isStopped = false)
    (next : WorkflowRunStatus) (outputText errorText : Option String) :
    (db.updateRunStatus runId next outputText errorText).Shows runId b next := by
  refine h.setRuns (sound_updateRunStatus db _ _ _ _ h.keyed).1 (fun _ => rfl) fun r _ hid hs => ?_
  rw [if_pos]
  rw [hid, hs]
  cases status <;> simp_all [WorkflowRunStatus.isStopped, WorkflowRunStatus.isTerminal]

theorem Shows.updateRunStatus_of_terminal (h : db.Shows runId b status)
    (hterminal : status.isTerminal = true) (next : WorkflowRunStatus)
    (outputText errorText : Option String) :
    (db.updateRunStatus runId next outputText errorText).Shows runId b status := by
  refine h.setRuns (sound_updateRunStatus db _ _ _ _ h.keyed).1 (fun _ => rfl) fun r _ hid hs => ?_
  rw [if_neg]
  · exact hs
  · simp [hs, hterminal]

end Shows

section Snapshot

theorem lowestIteration_mem {l : List NodeExecutionRow} {n : NodeExecutionRow}
    (h : lowestIteration l = some n) : n ∈ l := by
  induction l with
  | nil => cases h
  | cons m rest ih =>
    unfold lowestIteration at h
    cases hrest : lowestIteration rest with
    | none =>
      rw [hrest] at h
      exact Option.some.inj h ▸ List.mem_cons_self
    | some x =>
      simp only [hrest] at h
      split_ifs at h
      · exact List.mem_cons_of_mem m (ih (hrest.trans h))
      · exact Option.some.inj h ▸ List.mem_cons_self

theorem lowestIteration_none {l : List NodeExecutionRow} (h : lowestIteration l = none) :
    l = [] := by
  cases l with
  | nil => rfl
  | cons m rest =>
    unfold lowestIteration at h
    cases hrest : lowestIteration rest with
    | none =>
      rw [hrest] at h
      cases h
    | some x =>
      simp only [hrest] at h
      split_ifs at h

theorem mem_board_own {e : NodeExecutionSnapshot} :
    e ∈ (db.board runId).own ↔ ∃ n ∈ db.ownExecutions runId, e = n.snapshot := by
  simp only [board, List.mem_map]
  exact exists_congr fun n => and_congr_right fun _ => eq_comm

/-- The target of a skip is a pending execution of its node. -/
theorem pendingTarget_some {target : String} {n : NodeExecutionRow}
    (h : db.pendingTarget runId target = some n) :
    n ∈ db.ownExecutions runId ∧ n.nodeId = target ∧ n.status = .pending := by
  have hmem := lowestIteration_mem h
  simp only [pendingExecutions, List.mem_filter, Bool.and_eq_true, beq_iff_eq,
    decide_eq_true_eq] at hmem
  exact ⟨mem_ownExecutions.mpr ⟨hmem.1.1, hmem.1.2.1⟩, hmem.2, hmem.1.2.2⟩

theorem pendingTarget_none {target : String} (h : db.pendingTarget runId target = none)
    {e : NodeExecutionSnapshot} (he : e ∈ (db.board runId).own) (hnode : e.nodeId = target) :
    e.status ≠ .pending := by
  intro hp
  obtain ⟨n, hn, rfl⟩ := mem_board_own.mp he
  obtain ⟨hn, hrun⟩ := mem_ownExecutions.mp hn
  have hmem : n ∈ (db.pendingExecutions runId).filter fun n => n.nodeId == target := by
    simp only [pendingExecutions, List.mem_filter, Bool.and_eq_true, beq_iff_eq, decide_eq_true_eq]
    exact ⟨⟨hn, hrun, hp⟩, hnode⟩
  rw [lowestIteration_none h] at hmem
  cases hmem

/-- An own execution appears in the snapshot of the run. -/
theorem mem_loadRunSnapshot_of_own {e : NodeExecutionSnapshot} (h : e ∈ (db.board runId).own) :
    e ∈ (db.loadRunSnapshot runId).nodes := by
  obtain ⟨n, hn, rfl⟩ := mem_board_own.mp h
  exact mem_loadRunSnapshot.mpr (Or.inl ⟨_, mem_effectiveExecutions.mpr (Or.inl ⟨n, hn, rfl⟩), rfl⟩)

theorem effectiveExecutions_snapshots (db : Db) (runId : ℕ) :
    (db.effectiveExecutions runId).map (·.snapshot) =
      (db.board runId).own ++ (db.board runId).reused := by
  unfold effectiveExecutions board
  rw [List.map_append, List.map_map]
  rfl

/-- Only the own and the reused executions of a run trigger anything. -/
theorem succeededTriggerCountForEdge_snapshot (fromStr : String → Option Json)
    (graph : WorkflowGraph) (edge : WorkflowEdge) :
    succeededTriggerCountForEdge fromStr graph edge
        (executionSnapshots graph (db.loadRunSnapshot runId)) =
      succeededTriggerCountForEdge fromStr graph edge
        ((db.board runId).own ++ (db.board runId).reused) := by
  have hdispositions : (db.dispositionSnapshots runId).countP (fun e =>
      decide (e.status = .succeeded) && e.nodeId == edge.source &&
        executionTriggersEdge fromStr graph edge e) = 0 := by
    rw [List.countP_eq_zero]
    intro e he
    obtain ⟨d, _, _, rfl⟩ := mem_dispositionSnapshots.mp he
    simp
  have hsupplied : ∀ l : List WorkflowNode, (l.map fun node =>
      (⟨node.id, 0, .pending, none, none⟩ : NodeExecutionSnapshot)).countP (fun e =>
      decide (e.status = .succeeded) && e.nodeId == edge.source &&
        executionTriggersEdge fromStr graph edge e) = 0 := by
    intro l
    rw [List.countP_eq_zero]
    intro e he
    obtain ⟨node, _, rfl⟩ := List.mem_map.mp he
    simp
  unfold succeededTriggerCountForEdge executionSnapshots
  rw [List.countP_append, hsupplied, (db.loadRunSnapshot_perm runId).countP_eq, List.countP_append,
    hdispositions, effectiveExecutions_snapshots, Nat.add_zero]

theorem triggeredExecutionCount_snapshot (fromStr : String → Option Json) (graph : WorkflowGraph)
    (id : String) : triggeredExecutionCount fromStr graph (db.loadRunSnapshot runId) id =
      (db.board runId).demand fromStr graph id := by
  unfold triggeredExecutionCount Board.demand
  simp only [succeededTriggerCountForEdge_snapshot]

/-- Reused results are never results of a node the run works on. -/
theorem existingExecutionCount_board {graph : WorkflowGraph}
    (hframe : (db.board runId).Framed graph) {id : String}
    (hscope : (db.board runId).inScope id = true) :
    db.existingExecutionCount runId id = (db.board runId).live id := by
  have hcount : db.existingExecutionCount runId id =
      ((db.effectiveExecutions runId).map (·.snapshot)).countP fun e =>
        e.nodeId == id && decide (e.status ≠ .skipped) := by
    unfold existingExecutionCount
    rw [List.countP_map]
    rfl
  have hreused : (db.board runId).reused.countP (fun e =>
      e.nodeId == id && decide (e.status ≠ .skipped)) = 0 := by
    rw [List.countP_eq_zero]
    intro e he hlive
    simp only [Bool.and_eq_true, beq_iff_eq] at hlive
    have hout := (hframe.reused e he).2
    rw [hlive.1, hscope] at hout
    cases hout
  rw [hcount, effectiveExecutions_snapshots, List.countP_append, hreused, Nat.add_zero]
  rfl

/-- A node is asked for exactly when a stored success feeds one of its edges. -/
theorem demand_pos_iff {fromStr : String → Option Json} {graph : WorkflowGraph} {start : String}
    (hg : graph.Accepted start) {id : String} :
    0 < (db.board runId).demand fromStr graph id ↔ ∃ edge ∈ graph.edges, edge.target = id ∧
      ∃ e ∈ (db.loadRunSnapshot runId).nodes, Feeds fromStr graph edge e := by
  rw [← triggeredExecutionCount_snapshot]
  unfold triggeredExecutionCount
  rw [Nat.pos_iff_ne_zero, Ne, List.sum_eq_zero_iff]
  constructor
  · intro h
    push Not at h
    obtain ⟨k, hk, hpos⟩ := h
    obtain ⟨edge, hedge, rfl⟩ := List.mem_map.mp hk
    obtain ⟨hmem, htarget⟩ := mem_incomingEdges.mp hedge
    have hfeeds := (succeededTriggerCountForEdge_pos hg.nodup (hg.source_mem edge hmem)).mp
      (Nat.pos_of_ne_zero hpos)
    exact ⟨edge, hmem, htarget, exists_feeds_executionSnapshots.mp hfeeds⟩
  · rintro ⟨edge, hmem, htarget, hfeeds⟩ hzero
    have hshown : ∃ e ∈ executionSnapshots graph (db.loadRunSnapshot runId),
        Feeds fromStr graph edge e := exists_feeds_executionSnapshots.mpr hfeeds
    have hpos := (succeededTriggerCountForEdge_pos hg.nodup (hg.source_mem edge hmem)).mpr hshown
    have hnone := hzero _ (List.mem_map.mpr ⟨edge, mem_incomingEdges.mpr ⟨hmem, htarget⟩, rfl⟩)
    omega

end Snapshot

end Db

end VibeKanban.Runtime
