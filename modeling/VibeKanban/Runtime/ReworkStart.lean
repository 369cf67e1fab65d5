import VibeKanban.Runtime.Snapshot
import VibeKanban.Workflow.ReworkReady

/-! Writing a rework plan and the first pass of the planner over the new run. -/
namespace VibeKanban.Runtime
open Lib Workflow

/-- The pending rows of some nodes, with consecutive identities. -/
def pendingRows (runId : ℕ) : ℕ → List WorkflowNode → List NodeExecutionRow
  | _, [] => []
  | id, node :: rest =>
    ⟨id, runId, node.id, node.kind, 0, .pending, none, none, none⟩ ::
      pendingRows runId (id + 1) rest

theorem mem_pendingRows {runId id : ℕ} {nodes : List WorkflowNode} {n : NodeExecutionRow}
    (h : n ∈ pendingRows runId id nodes) : id ≤ n.id ∧ ∃ node ∈ nodes,
      n = ⟨n.id, runId, node.id, node.kind, 0, .pending, none, none, none⟩ := by
  induction nodes generalizing id with
  | nil => simp [pendingRows] at h
  | cons node rest ih =>
    rcases List.mem_cons.mp h with rfl | h
    · exact ⟨le_rfl, node, List.mem_cons_self, rfl⟩
    · obtain ⟨hid, node', hmem, heq⟩ := ih h
      exact ⟨by omega, node', List.mem_cons_of_mem _ hmem, heq⟩

theorem exists_mem_pendingRows {nodes : List WorkflowNode} {node : WorkflowNode}
    (h : node ∈ nodes) (runId id : ℕ) : ∃ n ∈ pendingRows runId id nodes,
      n = ⟨n.id, runId, node.id, node.kind, 0, .pending, none, none, none⟩ := by
  induction nodes generalizing id with
  | nil => simp at h
  | cons first rest ih =>
    rcases List.mem_cons.mp h with rfl | h
    · exact ⟨_, List.mem_cons_self, rfl⟩
    · obtain ⟨n, hn, heq⟩ := ih h (id + 1)
      exact ⟨n, List.mem_cons_of_mem _ hn, heq⟩

namespace Db
variable {db db' : Db} {runId : ℕ}

theorem insertReuse_all {bindings : List ReuseBinding}
    (h : bindings.foldlM (fun db binding => db.insertReuse runId binding) db = .ok db') :
    ∃ rows, db' = { db with reuse := db.reuse ++ rows } ∧
      (∀ row ∈ rows, ∃ b ∈ bindings, parseExecutionId b.sourceExecutionId =
        some row.sourceNodeExecutionId ∧ row = ⟨runId, b.nodeId, b.iteration,
          row.sourceNodeExecutionId⟩) ∧
      ∀ b ∈ bindings, ∃ row ∈ rows, parseExecutionId b.sourceExecutionId =
        some row.sourceNodeExecutionId ∧ row = ⟨runId, b.nodeId, b.iteration,
          row.sourceNodeExecutionId⟩ := by
  induction bindings generalizing db with
  | nil =>
    obtain rfl := Except.ok.inj h
    exact ⟨[], by simp, by simp, by simp⟩
  | cons b rest ih =>
    rw [List.foldlM_cons] at h
    obtain ⟨mid, hmid, h⟩ := except_bind_ok h
    obtain ⟨id, hparse, rfl⟩ := insertReuse_ok hmid
    obtain ⟨rows, rfl, hrows, hall⟩ := ih h
    refine ⟨⟨runId, b.nodeId, b.iteration, id⟩ :: rows, by simp, ?_, ?_⟩
    · intro row hrow
      rcases List.mem_cons.mp hrow with rfl | hrow
      · exact ⟨b, List.mem_cons_self, hparse, rfl⟩
      · obtain ⟨b', hb', heq⟩ := hrows row hrow
        exact ⟨b', List.mem_cons_of_mem _ hb', heq⟩
    · intro b' hb'
      rcases List.mem_cons.mp hb' with rfl | hb'
      · exact ⟨_, List.mem_cons_self, hparse, rfl⟩
      · obtain ⟨row, hrow, heq⟩ := hall b' hb'
        exact ⟨row, List.mem_cons_of_mem _ hrow, heq⟩

theorem insertDisposition_all {ids : List String}
    (h : ids.foldlM (fun db id => db.insertDisposition runId id) db = .ok db') :
    db' = { db with dispositions := db.dispositions ++ ids.map fun id => ⟨runId, id⟩ } := by
  induction ids generalizing db with
  | nil =>
    obtain rfl := Except.ok.inj h
    simp
  | cons id rest ih =>
    rw [List.foldlM_cons] at h
    obtain ⟨mid, hmid, h⟩ := except_bind_ok h
    rw [insertDisposition] at hmid
    split_ifs at hmid
    obtain rfl := Except.ok.inj hmid
    rw [ih h]
    simp

theorem materialize_all {nodes : List WorkflowNode}
    (h : db.materializeAll runId nodes = .ok db') :
    db' = { db with
      nodeExecutions := db.nodeExecutions ++ pendingRows runId db.nextId nodes
      nextId := db.nextId + nodes.length } := by
  induction nodes generalizing db with
  | nil =>
    obtain rfl := Except.ok.inj h
    simp [pendingRows]
  | cons node rest ih =>
    rw [materializeAll, List.foldlM_cons] at h
    obtain ⟨mid, hmid, h⟩ := except_bind_ok h
    rw [materializeNodeExecution] at hmid
    split_ifs at hmid
    obtain rfl := Except.ok.inj hmid
    rw [ih h]
    simp [pendingRows, Nat.add_assoc, Nat.add_comm 1]

/-- Nothing is stored for the run yet. -/
structure NoRows (db : Db) (runId : ℕ) : Prop where
  nodeExecutions : ∀ n ∈ db.nodeExecutions, n.runId ≠ runId
  reuse : ∀ r ∈ db.reuse, r.runId ≠ runId
  dispositions : ∀ d ∈ db.dispositions, d.runId ≠ runId

theorem insertReuse_all_ok (db : Db) (runId : ℕ) {bindings : List ReuseBinding}
    (hsource : ∀ b ∈ bindings, ∃ n ∈ db.nodeExecutions,
      parseExecutionId b.sourceExecutionId = some n.id)
    (hfree : ∀ b ∈ bindings, ∀ r ∈ db.reuse, r.runId = runId →
      (r.nodeId, r.iteration) ≠ (b.nodeId, b.iteration))
    (hkeys : (bindings.map fun b => (b.nodeId, b.iteration)).Nodup) :
    ∃ db', bindings.foldlM (fun db binding => db.insertReuse runId binding) db = .ok db' := by
  induction bindings generalizing db with
  | nil => exact ⟨db, rfl⟩
  | cons b rest ih =>
    obtain ⟨n, hn, hparse⟩ := hsource b List.mem_cons_self
    obtain ⟨hb, hrest⟩ := List.nodup_cons.mp hkeys
    have hnew : (db.reuse.any fun r => r.runId == runId && r.nodeId == b.nodeId &&
        r.iteration == b.iteration) = false := by
      rw [List.any_eq_false]
      intro r hr hkey
      simp only [Bool.and_eq_true, beq_iff_eq] at hkey
      exact hfree b List.mem_cons_self r hr hkey.1.1 (Prod.ext hkey.1.2 hkey.2)
    have hexists : (db.nodeExecutions.any fun x => x.id == n.id) = true :=
      List.any_eq_true.mpr ⟨n, hn, by simp⟩
    have hstep : db.insertReuse runId b =
        .ok { db with reuse := db.reuse ++ [⟨runId, b.nodeId, b.iteration, n.id⟩] } := by
      simp [insertReuse, hparse, hnew, hexists]
    rw [List.foldlM_cons, hstep]
    refine ih _ (fun c hc => hsource c (List.mem_cons_of_mem _ hc)) ?_ hrest
    intro c hc r hr hrun heq
    rcases List.mem_append.mp hr with hr | hr
    · exact hfree c (List.mem_cons_of_mem _ hc) r hr hrun heq
    · rw [List.mem_singleton.mp hr] at heq
      exact hb (List.mem_map.mpr ⟨c, hc, heq.symm⟩)

theorem insertDisposition_all_ok (db : Db) (runId : ℕ) {ids : List String}
    (hfree : ∀ id ∈ ids, ∀ d ∈ db.dispositions, d.runId = runId → d.nodeId ≠ id)
    (hnodup : ids.Nodup) :
    ∃ db', ids.foldlM (fun db id => db.insertDisposition runId id) db = .ok db' := by
  induction ids generalizing db with
  | nil => exact ⟨db, rfl⟩
  | cons id rest ih =>
    obtain ⟨hid, hrest⟩ := List.nodup_cons.mp hnodup
    have hnew : (db.dispositions.any fun d => d.runId == runId && d.nodeId == id) = false := by
      rw [List.any_eq_false]
      intro d hd hkey
      simp only [Bool.and_eq_true, beq_iff_eq] at hkey
      exact hfree id List.mem_cons_self d hd hkey.1 hkey.2
    have hstep : db.insertDisposition runId id =
        .ok { db with dispositions := db.dispositions ++ [⟨runId, id⟩] } := by
      simp [insertDisposition, hnew]
    rw [List.foldlM_cons, hstep]
    refine ih _ (fun x hx d hd hrun heq => ?_) hrest
    rcases List.mem_append.mp hd with hd | hd
    · exact hfree x (List.mem_cons_of_mem _ hx) d hd hrun heq
    · rw [List.mem_singleton.mp hd] at heq
      exact hid (by rwa [show id = x from heq])

theorem materialize_all_ok (db : Db) (runId : ℕ) {nodes : List WorkflowNode}
    (hfree : ∀ node ∈ nodes, ∀ n ∈ db.nodeExecutions, n.runId = runId → n.nodeId ≠ node.id)
    (hnodup : (nodes.map (·.id)).Nodup) :
    ∃ db', db.materializeAll runId nodes = .ok db' := by
  induction nodes generalizing db with
  | nil => exact ⟨db, rfl⟩
  | cons node rest ih =>
    obtain ⟨hid, hrest⟩ := List.nodup_cons.mp hnodup
    have hnew : (db.nodeExecutions.any fun n => n.runId == runId && n.nodeId == node.id &&
        n.iteration == 0) = false := by
      rw [List.any_eq_false]
      intro n hn hkey
      simp only [Bool.and_eq_true, beq_iff_eq] at hkey
      exact hfree node List.mem_cons_self n hn hkey.1.1 hkey.1.2
    have hstep : db.materializeNodeExecution runId node 0 = .ok { db with
        nodeExecutions := db.nodeExecutions ++
          [⟨db.nextId, runId, node.id, node.kind, 0, .pending, none, none, none⟩]
        nextId := db.nextId + 1 } := by
      simp [materializeNodeExecution, hnew]
    rw [materializeAll, List.foldlM_cons, hstep]
    refine ih _ (fun x hx n hn hrun heq => ?_) hrest
    rcases List.mem_append.mp hn with hn | hn
    · exact hfree x (List.mem_cons_of_mem _ hx) n hn hrun heq
    · rw [List.mem_singleton.mp hn] at heq
      exact hid (List.mem_map.mpr ⟨x, hx, heq.symm⟩)

/-- The tables after a plan has been written. -/
theorem applyRunPlan_tables {graph : WorkflowGraph} {plan : ReworkPlan}
    (h : db.applyRunPlan runId graph plan = .ok db') :
    ∃ rows, db'.nodeExecutions = db.nodeExecutions ++ pendingRows runId db.nextId
        (graph.nodes.filter fun node => plan.affectedNodeIds.contains node.id) ∧
      db'.reuse = db.reuse ++ rows ∧
      db'.dispositions = db.dispositions ++ plan.skippedNodeIds.map (fun id => ⟨runId, id⟩) ∧
      (∀ row ∈ rows, ∃ b ∈ plan.reuse, parseExecutionId b.sourceExecutionId =
        some row.sourceNodeExecutionId ∧ row = ⟨runId, b.nodeId, b.iteration,
          row.sourceNodeExecutionId⟩) ∧
      ∀ b ∈ plan.reuse, ∃ row ∈ rows, parseExecutionId b.sourceExecutionId =
        some row.sourceNodeExecutionId ∧ row = ⟨runId, b.nodeId, b.iteration,
          row.sourceNodeExecutionId⟩ := by
  rw [applyRunPlan] at h
  obtain ⟨db₁, h₁, h⟩ := except_bind_ok h
  obtain ⟨db₂, h₂, h⟩ := except_bind_ok h
  obtain ⟨db₃, h₃, h⟩ := except_bind_ok h
  obtain rfl := Except.ok.inj h
  obtain ⟨rows, rfl, hrows, hall⟩ := insertReuse_all h₁
  rw [insertDisposition_all h₂] at h₃
  rw [materialize_all h₃]
  exact ⟨rows, rfl, rfl, rfl, hrows, hall⟩

/-- The planner's records of the source of a submission. -/
def sourceRecords (db : Db) (sourceRunId : Option ℕ) : List ReworkSourceExecution :=
  (sourceRunId.map db.sourceExecutions).getD []

/-- A succeeded record names a stored execution with its output. -/
theorem sourceRecords_stored {sourceRunId : Option ℕ} {r : ReworkSourceExecution}
    (hr : r ∈ db.sourceRecords sourceRunId) (hs : r.status = .succeeded) :
    ∃ n ∈ db.nodeExecutions, parseExecutionId r.executionId = some n.id ∧
      n.status = .succeeded ∧ n.outputText = r.outputText := by
  cases sourceRunId with
  | none => simp [sourceRecords] at hr
  | some source =>
    obtain ⟨x, hx, hxs, rfl⟩ := mem_sourceExecutions_succeeded.mp ⟨hr, hs⟩
    obtain ⟨n, hn, hid, hst, hout⟩ := effectiveExecutions_source hx
    exact ⟨n, hn, by rw [parseExecutionId_text, hid], hst.trans hxs, hout⟩

section
variable {fromStr : String → Option Json} {graph : WorkflowGraph} {roots kept : List String}
  {sourceRunId : Option ℕ} {plan : ReworkPlan}

theorem mem_affectedRows {node : WorkflowNode} (hnode : node ∈ graph.nodes)
    (h : node.id ∈ plan.affectedNodeIds) :
    node ∈ graph.nodes.filter fun node => plan.affectedNodeIds.contains node.id :=
  List.mem_filter.mpr ⟨hnode, by simpa using h⟩

/-- Every binding of an accepted plan comes from a succeeded record. -/
theorem reuse_record
    (hacc : plan.Accepted fromStr graph roots (db.sourceRecords sourceRunId) kept)
    {b : ReuseBinding} (hb : b ∈ plan.reuse) :
    ∃ r ∈ db.sourceRecords sourceRunId, r.status = .succeeded ∧ r.binding = b := by
  obtain ⟨r, hr, rfl⟩ := List.mem_map.mp (hacc.reuse_perm.mem_iff.mp hb)
  obtain ⟨hmem, hkept⟩ := List.mem_filter.mp hr
  simp only [decide_eq_true_eq] at hkept
  exact ⟨r, hmem, hkept.1, rfl⟩

/-- The only execution with the identity of an older one is that one. -/
theorem ExecutionKeys.stored_unique (hkeys : db.ExecutionKeys) {rows : List NodeExecutionRow}
    (hrows : ∀ n ∈ rows, db.nextId ≤ n.id) {n m : NodeExecutionRow} (hm : m ∈ db.nodeExecutions)
    (hn : n ∈ db.nodeExecutions ++ rows) (hid : n.id = m.id) : n = m := by
  rcases List.mem_append.mp hn with hn | hn
  · exact List.inj_on_of_nodup_map hkeys.ids hn hm hid
  · have hnew := hrows n hn
    have hold := hkeys.fresh m hm
    omega

theorem applyRunPlan_shown {start : String} (hg : graph.Accepted start) (hkeys : db.ExecutionKeys)
    (hno : db.NoRows runId)
    (hacc : plan.Accepted fromStr graph roots (db.sourceRecords sourceRunId) kept)
    (h : db.applyRunPlan runId graph plan = .ok db') :
    plan.Shown graph (db.sourceRecords sourceRunId) (db'.loadRunSnapshot runId).nodes := by
  obtain ⟨rows, hnodes, hreuse, hdisp, hrows, hall⟩ := applyRunPlan_tables h
  have hnew : ∀ n ∈ pendingRows runId db.nextId (graph.nodes.filter fun node =>
      plan.affectedNodeIds.contains node.id), db.nextId ≤ n.id := fun n hn => (mem_pendingRows hn).1
  have hown : ∀ id ∈ plan.affectedNodeIds,
      ⟨id, 0, .pending, none, none⟩ ∈ (db'.loadRunSnapshot runId).nodes := by
    intro id hid
    obtain ⟨node, hnode, rfl⟩ := List.mem_map.mp
      (affected_mem_nodeIds hg.target_mem hacc.roots_known ((hacc.mem_affected id).mp hid))
    obtain ⟨n, hn, heq⟩ := exists_mem_pendingRows (mem_affectedRows hnode hid) runId db.nextId
    refine mem_loadRunSnapshot.mpr (Or.inl ⟨⟨n.id, n.snapshot⟩, ?_, by rw [heq]; rfl⟩)
    refine mem_effectiveExecutions.mpr (Or.inl ⟨n, mem_ownExecutions.mpr ⟨?_, by rw [heq]⟩, rfl⟩)
    rw [hnodes]
    exact List.mem_append_right _ hn
  have hshown : ∀ r ∈ db.sourceRecords sourceRunId, r.status = .succeeded →
      r.binding ∈ plan.reuse → ∃ e ∈ (db'.loadRunSnapshot runId).nodes,
        e.status = .succeeded ∧ e.nodeId = r.nodeId ∧ e.outputText = r.outputText := by
    intro r hr hs hb
    obtain ⟨row, hrow, hparse, heq⟩ := hall _ hb
    obtain ⟨n, hn, hid, hst, hout⟩ := sourceRecords_stored hr hs
    have hsource : n.id = row.sourceNodeExecutionId :=
      Option.some.inj (hid.symm.trans hparse)
    refine ⟨{ n.snapshot with nodeId := row.nodeId, iteration := row.iteration },
      mem_loadRunSnapshot.mpr (Or.inl ⟨_, mem_effectiveExecutions.mpr (Or.inr
        (mem_reusedExecutions.mpr ⟨row, ?_, by rw [heq], n, ?_, hsource, rfl⟩)), rfl⟩),
      hst, by rw [heq]; rfl, hout⟩
    · rw [hreuse]
      exact List.mem_append_right _ hrow
    · rw [hnodes]
      exact List.mem_append_left _ hn
  have hcases : ∀ e ∈ (db'.loadRunSnapshot runId).nodes,
      (e.status = .pending ∧ e.nodeId ∈ plan.affectedNodeIds ∧ e.iteration = 0) ∨
      (e.status = .succeeded ∧ ∃ r ∈ db.sourceRecords sourceRunId, r.status = .succeeded ∧
        r.binding ∈ plan.reuse ∧ e.nodeId = r.nodeId ∧ e.outputText = r.outputText) ∨
      e.status = .skipped := by
    intro e he
    rcases mem_loadRunSnapshot.mp he with ⟨x, hx, rfl⟩ | hd
    · rcases mem_effectiveExecutions.mp hx with ⟨n, hn, rfl⟩ | hx
      · obtain ⟨hn, hrun⟩ := mem_ownExecutions.mp hn
        rw [hnodes] at hn
        rcases List.mem_append.mp hn with hn | hn
        · exact absurd hrun (hno.nodeExecutions n hn)
        · obtain ⟨_, node, hnode, heq⟩ := mem_pendingRows hn
          have haff : node.id ∈ plan.affectedNodeIds := by simpa using (List.mem_filter.mp hnode).2
          rw [heq]
          exact Or.inl ⟨rfl, haff, rfl⟩
      · obtain ⟨row, hrow, hrun, n, hn, hid, rfl⟩ := mem_reusedExecutions.mp hx
        rw [hreuse] at hrow
        rcases List.mem_append.mp hrow with hrow | hrow
        · exact absurd hrun (hno.reuse row hrow)
        · obtain ⟨b, hb, hparse, heq⟩ := hrows row hrow
          obtain ⟨r, hr, hs, rfl⟩ := reuse_record hacc hb
          obtain ⟨m, hm, hmid, hst, hout⟩ := sourceRecords_stored hr hs
          have hsame : n.id = m.id := hid.trans (Option.some.inj (hparse.symm.trans hmid))
          rw [hnodes] at hn
          obtain rfl := hkeys.stored_unique hnew hm hn hsame
          exact Or.inr (Or.inl ⟨hst, r, hr, hs, hb, by rw [heq]; rfl, hout⟩)
    · obtain ⟨d, _, _, rfl⟩ := mem_dispositionSnapshots.mp hd
      exact Or.inr (Or.inr rfl)
  refine ⟨?_, hown, ?_, hshown, ?_⟩
  · intro e he hp
    rcases hcases e he with ⟨_, haff⟩ | ⟨hs, _⟩ | hs
    · exact haff
    · rw [hs] at hp
      cases hp
    · rw [hs] at hp
      cases hp
  · intro e he hs
    rcases hcases e he with ⟨hp, _⟩ | ⟨_, hr⟩ | hsk
    · rw [hs] at hp
      cases hp
    · exact hr
    · rw [hs] at hsk
      cases hsk
  · intro id hid
    by_cases ha : Affected graph roots id
    · exact ⟨_, hown id ((hacc.mem_affected id).mpr ha), rfl⟩
    · by_cases hp : Permitted fromStr graph roots (db.sourceRecords sourceRunId) id
      · have hk := (hacc.mem_kept id).mpr ⟨hid, ha, hp⟩
        obtain ⟨⟨r, hr, rfl, hs⟩, _⟩ := hacc.complete id hk
        obtain ⟨e, he, _, heid, _⟩ := hshown r hr hs (hacc.binding_mem_reuse hr hs hk)
        exact ⟨e, he, heid⟩
      · have hskip := (hacc.mem_skipped id).mpr ⟨hid, ha, hp⟩
        refine ⟨_, mem_loadRunSnapshot.mpr (Or.inr (mem_dispositionSnapshots.mpr
          ⟨⟨runId, id⟩, ?_, rfl, rfl⟩)), rfl⟩
        rw [hdisp]
        exact List.mem_append_right _ (List.mem_map_of_mem hskip)

/-- A plan can be written when the source has no two successes of one node and iteration. -/
theorem applyRunPlan_ok {start : String} (hg : graph.Accepted start) (hno : db.NoRows runId)
    (hacc : plan.Accepted fromStr graph roots (db.sourceRecords sourceRunId) kept)
    (hdistinct : (((db.sourceRecords sourceRunId).filter fun r => decide (r.status = .succeeded)).map
      fun r => (r.nodeId, r.iteration)).Nodup) :
    ∃ db', db.applyRunPlan runId graph plan = .ok db' := by
  have hkeys : (plan.reuse.map fun b => (b.nodeId, b.iteration)).Nodup := by
    have hperm := hacc.reuse_perm.map fun b : ReuseBinding => (b.nodeId, b.iteration)
    rw [List.map_map] at hperm
    refine hperm.nodup_iff.mpr (hdistinct.sublist (List.Sublist.map _ ?_))
    refine List.monotone_filter_right _ fun r => ?_
    simp only [decide_eq_true_eq]
    exact And.left
  obtain ⟨db₁, h₁⟩ := insertReuse_all_ok db runId (fun b hb => by
    obtain ⟨r, hr, hs, rfl⟩ := reuse_record hacc hb
    obtain ⟨n, hn, hid, _⟩ := sourceRecords_stored hr hs
    exact ⟨n, hn, hid⟩) (fun _ _ r hr hrun => absurd hrun (hno.reuse r hr)) hkeys
  obtain ⟨rows, heq₁, _⟩ := insertReuse_all h₁
  obtain ⟨db₂, h₂⟩ := insertDisposition_all_ok db₁ runId (fun _ _ d hd hrun => by
    rw [heq₁] at hd
    exact absurd hrun (hno.dispositions d hd)) hacc.skipped_nodup
  obtain ⟨db₃, h₃⟩ := materialize_all_ok db₂ runId (fun _ _ n hn hrun => by
    rw [insertDisposition_all h₂, heq₁] at hn
    exact absurd hrun (hno.nodeExecutions n hn))
    (hg.nodup.sublist (List.Sublist.map _ (List.filter_sublist
      (p := fun node => plan.affectedNodeIds.contains node.id))))
  exact ⟨_, by rw [applyRunPlan, h₁, ok_bind, h₂, ok_bind, h₃]; rfl⟩

/-- A rework plan never yields a dead run: whenever it is written, the planner offers a node,
offers every affected node that only reused results feed, and offers nothing without a pending
row; and a plan over a source with one success per iteration can be written. -/
theorem applyRunPlan_starts {validated : ValidatedGraph} {request : Option (List String)}
    (hvalid : validateGraph graph = .ok validated) (hkeys : db.ExecutionKeys)
    (hno : db.NoRows runId)
    (hplan : planRework fromStr graph request (db.sourceRecords sourceRunId) = .ok plan) :
    ((((db.sourceRecords sourceRunId).filter fun r => decide (r.status = .succeeded)).map
      fun r => (r.nodeId, r.iteration)).Nodup → ∃ db', db.applyRunPlan runId graph plan = .ok db') ∧
    ∀ db', db.applyRunPlan runId graph plan = .ok db' →
      plan.Starts fromStr graph validated.startNodeId (request.getD graph.nodeIds)
        (db.sourceRecords sourceRunId)
        (planReadyNodes fromStr graph (db'.loadRunSnapshot runId)).readyNodes ∧
      ∀ r ∈ (planReadyNodes fromStr graph (db'.loadRunSnapshot runId)).readyNodes,
        ∃ n ∈ db'.nodeExecutions, n.runId = runId ∧ n.nodeId = r.nodeId ∧
          n.iteration = r.iteration ∧ n.status = .pending := by
  have hg := validateGraph_accepted hvalid
  rcases planRework_spec fromStr (db.sourceRecords sourceRunId) hg.target_mem request with
    ⟨⟨m, hm⟩, _⟩ | ⟨plan', kept, hok, hnref, hacc⟩
  · rw [hm] at hplan
    cases hplan
  · obtain rfl := Except.ok.inj (hok.symm.trans hplan)
    refine ⟨applyRunPlan_ok hg hno hacc, fun db' h => ?_⟩
    have hshown := applyRunPlan_shown hg hkeys hno hacc h
    refine ⟨hshown.starts hg hnref hacc, fun r hr => ?_⟩
    obtain ⟨node, hnode, haff, rfl, _⟩ := (hshown.mem_readyNodes hg hacc).mp hr
    obtain ⟨n, hn, heq⟩ := exists_mem_pendingRows (mem_affectedRows hnode haff) runId db.nextId
    obtain ⟨rows, hnodes, _⟩ := applyRunPlan_tables h
    refine ⟨n, ?_, by rw [heq], by rw [heq]; rfl, by rw [heq]; rfl, by rw [heq]⟩
    rw [hnodes]
    exact List.mem_append_right _ hn

end

end Db

section Fixture

/-- A finished run of the branching graph that went left. -/
def leftDb : Db := { Db.empty with
  nodeExecutions := [
    ⟨0, 1, "start", .start, 0, .succeeded, some "input", none, none⟩,
    ⟨1, 1, "condition", .condition, 0, .succeeded, some leftDecision, none, none⟩,
    ⟨2, 1, "left", .agent, 0, .succeeded, some "left", none, none⟩,
    ⟨3, 1, "right", .agent, 0, .skipped, none, none, none⟩,
    ⟨4, 1, "end", .end, 0, .succeeded, some "end", none, none⟩]
  nextId := 5 }

def leftPlan : ReworkPlan :=
  ⟨["end"], [⟨"condition", 0, "1"⟩, ⟨"left", 0, "2"⟩, ⟨"start", 0, "0"⟩], ["right"]⟩

/-- Running the End again: the plan is written and the End is offered. -/
theorem applyRunPlan_starts_left : ∃ db', leftDb.applyRunPlan 2 branchGraph leftPlan = .ok db' ∧
    (planReadyNodes leftFromStr branchGraph (db'.loadRunSnapshot 2)).readyNodes ≠ [] := by
  have hvalid : validateGraph branchGraph = .ok ⟨2, "start", ["end"]⟩ := by rfl
  have hplan : planRework leftFromStr branchGraph (some ["end"]) (leftDb.sourceRecords (some 1)) =
      .ok leftPlan := by decide +kernel
  have h := Db.applyRunPlan_starts hvalid ⟨by decide, by decide, by decide⟩
    (⟨by decide, by decide, by decide⟩ : leftDb.NoRows 2) hplan
  obtain ⟨db', hdb'⟩ := h.1 (by decide +kernel)
  exact ⟨db', hdb', (h.2 db' hdb').1.live⟩

end Fixture

end VibeKanban.Runtime
