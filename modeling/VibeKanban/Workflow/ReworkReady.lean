import VibeKanban.Workflow.Ready
import VibeKanban.Workflow.ReworkExact

/-! A planned rework is alive: what the planner offers on the first snapshot of the new run. -/
namespace VibeKanban.Workflow
open Lib Relation

theorem exists_crossing {α : Type*} {r : α → α → Prop} {p : α → Prop} {a b : α}
    (h : ReflTransGen r a b) (ha : ¬ p a) (hb : p b) :
    ∃ x y, ReflTransGen r a x ∧ ¬ p x ∧ r x y ∧ p y := by
  induction h with
  | refl => exact absurd hb ha
  | @tail y z hay hyz ih =>
    by_cases hy : p y
    · exact ih hy
    · exact ⟨y, z, hay, hy, hyz, hb⟩

/-- The first snapshot of a planned run. -/
structure ReworkPlan.Shown (graph : WorkflowGraph) (source : List ReworkSourceExecution)
    (plan : ReworkPlan) (nodes : List NodeExecutionSnapshot) : Prop where
  pending : ∀ e ∈ nodes, e.status = .pending → e.nodeId ∈ plan.affectedNodeIds ∧ e.iteration = 0
  affected : ∀ id ∈ plan.affectedNodeIds, ⟨id, 0, .pending, none, none⟩ ∈ nodes
  reused : ∀ e ∈ nodes, e.status = .succeeded → ∃ r ∈ source, r.status = .succeeded ∧
    r.binding ∈ plan.reuse ∧ e.nodeId = r.nodeId ∧ e.outputText = r.outputText
  shown : ∀ r ∈ source, r.status = .succeeded → r.binding ∈ plan.reuse →
    ∃ e ∈ nodes, e.status = .succeeded ∧ e.nodeId = r.nodeId ∧ e.outputText = r.outputText
  covered : ∀ id ∈ graph.nodeIds, ∃ e ∈ nodes, e.nodeId = id

section
variable {fromStr : String → Option Json} {graph : WorkflowGraph} {start : String}
  {roots kept : List String} {source : List ReworkSourceExecution} {plan : ReworkPlan}

theorem Permitted.downstream {a b : String} (hp : Permitted fromStr graph roots source a)
    (ha : Affected graph roots a) (hab : ReflTransGen graph.Edge a b) :
    Permitted fromStr graph roots source b := by
  induction hab with
  | refl => exact hp
  | @tail x y hax hxy ih =>
    obtain ⟨node, hnode, hk, hpath⟩ := ih
    obtain ⟨e, he, hs, ht⟩ := hxy
    exact ⟨node, hnode, hk, hpath.tail ⟨e, he, hs, ht, fun _ hn => absurd (ha.trans hax) hn⟩⟩

theorem permitted_of_affected (hg : graph.Accepted start) {request : Option (List String)}
    (hok : ¬ ReworkRefused fromStr graph source request) {id : String}
    (h : Affected graph (request.getD graph.nodeIds) id) :
    Permitted fromStr graph (request.getD graph.nodeIds) source id := by
  cases request with
  | none =>
    obtain ⟨node, hnode, hid⟩ := List.mem_map.mp hg.start_mem
    have hstart : Permitted fromStr graph graph.nodeIds source start :=
      ⟨node, hnode, (hg.start_iff node hnode).mpr hid, by rw [hid]⟩
    have hmem := affected_mem_nodeIds hg.target_mem (fun r hr => hr) h
    exact hstart.downstream ⟨start, hg.start_mem, .refl⟩ (hg.reachable id hmem)
  | some rs =>
    obtain ⟨root, hroot, hpath⟩ := h
    have hp : Permitted fromStr graph rs source root := by
      by_contra hn
      exact hok (Or.inl ⟨rs, rfl, Or.inr (Or.inr (Or.inr ⟨root, hroot, hn⟩))⟩)
    exact hp.downstream ⟨root, hroot, .refl⟩ hpath

theorem ReworkPlan.Accepted.binding_mem_reuse (hacc : plan.Accepted fromStr graph roots source kept)
    {r : ReworkSourceExecution} (hr : r ∈ source) (hs : r.status = .succeeded)
    (hk : r.nodeId ∈ kept) : r.binding ∈ plan.reuse := by
  rw [hacc.reuse_perm.mem_iff]
  exact List.mem_map_of_mem (List.mem_filter.mpr ⟨hr, by simp [hs, hk]⟩)

theorem ReworkPlan.Accepted.mem_reuse_nodes (hacc : plan.Accepted fromStr graph roots source kept)
    {id : String} : id ∈ plan.reuse.map (·.nodeId) ↔ id ∈ kept := by
  rw [List.mem_map]
  constructor
  · rintro ⟨b, hb, rfl⟩
    obtain ⟨r, hr, rfl⟩ := List.mem_map.mp (hacc.reuse_perm.mem_iff.mp hb)
    have hr' := (List.mem_filter.mp hr).2
    simp only [decide_eq_true_eq] at hr'
    exact hr'.2
  · intro hk
    obtain ⟨⟨r, hr, hid, hs⟩, _⟩ := hacc.complete id hk
    exact ⟨r.binding, hacc.binding_mem_reuse hr hs (hid ▸ hk), hid⟩

theorem recordSelects_iff {e : WorkflowEdge} : recordSelects fromStr source e = true ↔
    ∃ r ∈ source, r.nodeId = e.source ∧ r.status = .succeeded ∧
      conditionOutputSelectsTarget fromStr r.outputText e.target = true := by
  simp [recordSelects, and_assoc]

variable {snapshot : RunSnapshot}

/-- An edge is fed exactly when a reused node took it in the source run. -/
theorem ReworkPlan.Shown.feeds_iff (hacc : plan.Accepted fromStr graph roots source kept)
    (hshown : plan.Shown graph source snapshot.nodes) {id : String} :
    (∃ edge ∈ graph.edges, edge.target = id ∧ ∃ e ∈ snapshot.nodes, Feeds fromStr graph edge e) ↔
      ∃ a ∈ kept, RecordedRoute fromStr graph source a id := by
  constructor
  · rintro ⟨edge, hedge, rfl, e, he, hs, hid, hsel⟩
    obtain ⟨r, hr, hrs, hb, hrid, hout⟩ := hshown.reused e he hs
    have hk : edge.source ∈ kept := by
      rw [← hid, hrid]
      exact hacc.mem_reuse_nodes.mp (List.mem_map_of_mem hb)
    refine ⟨edge.source, hk, edge, hedge, rfl, rfl, fun hc => recordSelects_iff.mpr ?_⟩
    exact ⟨r, hr, hrid.symm.trans hid, hrs, hout ▸ hsel hc⟩
  · rintro ⟨a, hk, edge, hedge, rfl, rfl, hsel⟩
    refine ⟨edge, hedge, rfl, ?_⟩
    have hrecord : ∃ r ∈ source, r.nodeId = edge.source ∧ r.status = .succeeded ∧
        (isCondition graph edge.source = true →
          conditionOutputSelectsTarget fromStr r.outputText edge.target = true) := by
      by_cases hc : isCondition graph edge.source = true
      · obtain ⟨r, hr, hid, hs, hselects⟩ := recordSelects_iff.mp (hsel hc)
        exact ⟨r, hr, hid, hs, fun _ => hselects⟩
      · obtain ⟨⟨r, hr, hid, hs⟩, _⟩ := hacc.complete _ hk
        exact ⟨r, hr, hid, hs, fun h => absurd h hc⟩
    obtain ⟨r, hr, hid, hs, hselects⟩ := hrecord
    obtain ⟨e, he, hes, heid, hout⟩ :=
      hshown.shown r hr hs (hacc.binding_mem_reuse hr hs (hid ▸ hk))
    exact ⟨e, he, hes, heid.trans hid, fun hc => hout ▸ hselects hc⟩

/-- What is offered on the first snapshot: Start, or a node behind a route the source run took,
in its first iteration. -/
theorem ReworkPlan.Shown.mem_readyNodes (hg : graph.Accepted start)
    (hacc : plan.Accepted fromStr graph roots source kept)
    (hshown : plan.Shown graph source snapshot.nodes) {r : ReadyNode} :
    r ∈ (planReadyNodes fromStr graph snapshot).readyNodes ↔
      ∃ node ∈ graph.nodes, node.id ∈ plan.affectedNodeIds ∧ r = readyNode node 0 ∧
        (node.id = start ∨ ∃ a ∈ kept, RecordedRoute fromStr graph source a node.id) := by
  rw [mem_readyNodes_iff hg]
  constructor
  · rintro ⟨node, hnode, e, he, hp, hid, rfl, hready⟩
    rcases mem_executionSnapshots.mp he with he | ⟨node', hnode', habsent, rfl⟩
    · obtain ⟨haff, hit⟩ := hshown.pending e he hp
      rw [hshown.feeds_iff hacc] at hready
      exact ⟨node, hnode, hid ▸ haff, by rw [hit], hready.imp_left And.left⟩
    · obtain ⟨x, hx, hxid⟩ := hshown.covered node'.id (List.mem_map_of_mem hnode')
      exact absurd hxid (habsent x hx)
  · rintro ⟨node, hnode, haff, rfl, hready⟩
    refine ⟨node, hnode, _, mem_executionSnapshots.mpr (Or.inl (hshown.affected _ haff)), rfl, rfl,
      rfl, ?_⟩
    rw [hshown.feeds_iff hacc]
    exact hready.imp_left fun h => ⟨h, rfl⟩

/-- The first affected node on a permitted path from Start is Start or is fed by a reused one. -/
theorem exists_fed_node (hg : graph.Accepted start)
    (hacc : plan.Accepted fromStr graph roots source kept) {id : String}
    (ha : Affected graph roots id) (hp : Permitted fromStr graph roots source id) :
    ∃ b, Affected graph roots b ∧
      (b = start ∨ ∃ a ∈ kept, RecordedRoute fromStr graph source a b) := by
  obtain ⟨node, hnode, hk, hpath⟩ := hp
  have hstart := (hg.start_iff node hnode).mp hk
  by_cases hs : Affected graph roots start
  · exact ⟨start, hs, Or.inl rfl⟩
  · rw [hstart] at hpath
    obtain ⟨x, y, hsx, hx, ⟨e, he, rfl, rfl, hsel⟩, hy⟩ := exists_crossing hpath hs ha
    have hkept : e.source ∈ kept := by
      refine (hacc.mem_kept _).mpr ⟨hg.source_mem e he, hx, node, hnode, hk, ?_⟩
      rwa [hstart]
    exact ⟨e.target, hy, Or.inr ⟨e.source, hkept, e, he, rfl, rfl, fun hc => hsel hc hx⟩⟩

/-- A planned run starts: something is offered, namely exactly the affected nodes that are Start
or that a reused result feeds, and nothing without a pending row. -/
structure ReworkPlan.Starts (fromStr : String → Option Json) (graph : WorkflowGraph)
    (start : String) (roots : List String) (source : List ReworkSourceExecution)
    (plan : ReworkPlan) (ready : List ReadyNode) : Prop where
  live : ready ≠ []
  offered_iff : ∀ id, (∃ r ∈ ready, r.nodeId = id) ↔ id ∈ plan.affectedNodeIds ∧
    (id = start ∨ ∃ a ∈ plan.reuse.map (·.nodeId), RecordedRoute fromStr graph source a id)
  fed : ∀ id ∈ plan.affectedNodeIds,
    (∀ a, Permitted fromStr graph roots source a → PermittedRoute fromStr graph roots source a id →
      a ∈ plan.reuse.map (·.nodeId)) → ∃ r ∈ ready, r.nodeId = id
  first : ∀ r ∈ ready, r.iteration = 0

theorem ReworkPlan.Shown.starts (hg : graph.Accepted start) {request : Option (List String)}
    (hok : ¬ ReworkRefused fromStr graph source request)
    (hacc : plan.Accepted fromStr graph (request.getD graph.nodeIds) source kept)
    (hshown : plan.Shown graph source snapshot.nodes) :
    plan.Starts fromStr graph start (request.getD graph.nodeIds) source
      (planReadyNodes fromStr graph snapshot).readyNodes := by
  have hnodes : ∀ id ∈ plan.affectedNodeIds, id ∈ graph.nodeIds := fun id hid =>
    affected_mem_nodeIds hg.target_mem hacc.roots_known ((hacc.mem_affected id).mp hid)
  have hoffer : ∀ id, (∃ r ∈ (planReadyNodes fromStr graph snapshot).readyNodes, r.nodeId = id) ↔
      id ∈ plan.affectedNodeIds ∧ (id = start ∨ ∃ a ∈ plan.reuse.map (·.nodeId),
        RecordedRoute fromStr graph source a id) := by
    intro id
    simp only [hacc.mem_reuse_nodes, hshown.mem_readyNodes hg hacc]
    constructor
    · rintro ⟨r, ⟨node, hnode, haff, rfl, hready⟩, rfl⟩
      exact ⟨haff, hready⟩
    · rintro ⟨haff, hready⟩
      obtain ⟨node, hnode, rfl⟩ := List.mem_map.mp (hnodes id haff)
      exact ⟨_, ⟨node, hnode, haff, rfl, hready⟩, rfl⟩
  refine ⟨?_, hoffer, ?_, ?_⟩
  · obtain ⟨root, hroot⟩ : ∃ root, root ∈ request.getD graph.nodeIds := by
      cases request with
      | none => exact ⟨start, hg.start_mem⟩
      | some rs =>
        refine List.exists_mem_of_ne_nil _ fun hnil => hok (Or.inl ⟨rs, rfl, Or.inl hnil⟩)
    have ha : Affected graph (request.getD graph.nodeIds) root := ⟨root, hroot, .refl⟩
    obtain ⟨b, hb, hfed⟩ := exists_fed_node hg hacc ha (permitted_of_affected hg hok ha)
    simp only [← hacc.mem_reuse_nodes] at hfed
    obtain ⟨r, hr, _⟩ := (hoffer b).mpr ⟨(hacc.mem_affected b).mpr hb, hfed⟩
    exact List.ne_nil_of_mem hr
  · intro id haff hall
    refine (hoffer id).mpr ⟨haff, ?_⟩
    obtain ⟨node, hnode, hk, hpath⟩ := permitted_of_affected hg hok ((hacc.mem_affected id).mp haff)
    rcases ReflTransGen.cases_tail hpath with rfl | ⟨a, hna, hroute⟩
    · exact Or.inl ((hg.start_iff node hnode).mp hk)
    · have hreuse := hall a ⟨node, hnode, hk, hna⟩ hroute
      have hkept := hacc.mem_reuse_nodes.mp hreuse
      obtain ⟨e, he, rfl, rfl, hsel⟩ := hroute
      exact Or.inr ⟨e.source, hreuse, e, he, rfl, rfl,
        fun hc => hsel hc ((hacc.mem_kept _).mp hkept).2.1⟩
  · intro r hr
    obtain ⟨node, _, _, rfl, _⟩ := (hshown.mem_readyNodes hg hacc).mp hr
    rfl

end

end VibeKanban.Workflow
