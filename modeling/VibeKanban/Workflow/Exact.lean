import VibeKanban.Workflow.Validation

/-! Which graphs are accepted, for storing and for running, in terms of the graphs alone. -/
namespace VibeKanban.Workflow
open Lib Relation

variable {graph : WorkflowGraph}

/-- A graph with one Start from which every node is reached, with an End, without cycles, whose edges
join its nodes and whose Conditions have no two edges to one target. -/
structure WorkflowGraph.WellFormed (graph : WorkflowGraph) : Prop where
  version : graph.version = 1 ∨ graph.version = 2
  nodup : graph.nodeIds.Nodup
  start : (graph.nodes.filter fun node => node.kind = .start).length = 1
  «end» : ∃ node ∈ graph.nodes, node.kind = .end
  endpoints : ∀ edge ∈ graph.edges, edge.source ∈ graph.nodeIds ∧ edge.target ∈ graph.nodeIds
  conditions : ∀ node ∈ graph.nodes, node.kind = .condition →
    graph.edges.Pairwise fun edge edge' =>
      edge.source = node.id → edge'.source = node.id → edge.target ≠ edge'.target
  acyclic : ∀ id, ¬ TransGen graph.Edge id id
  reachable : ∀ start ∈ graph.nodes, start.kind = .start →
    ∀ node ∈ graph.nodes, ReflTransGen graph.Edge start.id node.id

theorem adjacencyMap_nodup {id : String} : (adjacencyMap graph id).Nodup ↔
    graph.edges.Pairwise fun edge edge' =>
      edge.source = id → edge'.source = id → edge.target ≠ edge'.target := by
  rw [adjacencyMap, List.Nodup, List.pairwise_map, List.pairwise_filter]
  simp only [beq_iff_eq]

theorem WorkflowGraph.Accepted.wellFormed {start : String} (h : graph.Accepted start) :
    graph.WellFormed where
  version := h.version
  nodup := h.nodup
  start := by
    obtain ⟨node, hnodes, _⟩ := h.startNodes
    have hlength := congrArg List.length hnodes
    exact hlength
  «end» := h.end_mem
  endpoints edge hedge := ⟨h.source_mem edge hedge, h.target_mem edge hedge⟩
  conditions node hnode hkind := adjacencyMap_nodup.mp (h.condition_targets node hnode hkind)
  acyclic := h.acyclic
  reachable first hfirst hkind node hnode := by
    rw [(h.start_iff first hfirst).mp hkind]
    exact h.reachable node.id (List.mem_map_of_mem hnode)

theorem WorkflowGraph.WellFormed.accepted (h : graph.WellFormed) : ∃ start, graph.Accepted start := by
  obtain ⟨first, hfirst⟩ := List.length_eq_one_iff.mp h.start
  have hmem : first ∈ graph.nodes ∧ first.kind = .start := by
    have hin : first ∈ graph.nodes.filter fun node => node.kind = .start :=
      hfirst ▸ List.mem_singleton_self _
    simpa using List.mem_filter.mp hin
  refine ⟨first.id, h.version, h.nodup, ?_, List.mem_map_of_mem hmem.1, h.end,
    fun edge hedge => (h.endpoints edge hedge).1, fun edge hedge => (h.endpoints edge hedge).2,
    fun node hnode hkind => adjacencyMap_nodup.mpr (h.conditions node hnode hkind), h.acyclic, ?_⟩
  · intro node hnode
    constructor
    · intro hkind
      have hin : node ∈ graph.nodes.filter fun node => node.kind = .start :=
        List.mem_filter.mpr ⟨hnode, by simpa using hkind⟩
      rw [hfirst] at hin
      rw [List.mem_singleton.mp hin]
    · intro hid
      rw [List.inj_on_of_nodup_map h.nodup hnode hmem.1 hid]
      exact hmem.2
  · intro id hid
    obtain ⟨node, hnode, rfl⟩ := List.mem_map.mp hid
    exact h.reachable first hmem.1 hmem.2 node hnode

/-- A graph is accepted exactly when it is well formed. -/
theorem validateGraph_exact : (∃ validated, validateGraph graph = .ok validated) ↔ graph.WellFormed := by
  rw [validateGraph_ok_iff]
  exact ⟨fun ⟨_, h⟩ => h.wellFormed, WorkflowGraph.WellFormed.accepted⟩

section Routing
variable {blank : String → Bool} {outgoing seen : List String} {branches : List ConditionBranch}

/-- The branches of a Condition name its targets, each once, and have conditions. -/
theorem branchesReady_iff : BranchesReady blank outgoing seen branches ↔
    ∃ targets : List String, branches.map (·.targetNodeId) = targets.map some ∧ targets.Nodup ∧
      (∀ target ∈ targets, target ∉ seen ∧ target ∈ outgoing) ∧
      (∀ branch ∈ branches, blank (branch.condition.getD "") = false) ∧
      ∀ target ∈ outgoing, target ∈ seen ∨ target ∈ targets := by
  induction branches generalizing seen with
  | nil =>
    simp only [BranchesReady, List.map_nil]
    constructor
    · exact fun h => ⟨[], rfl, List.nodup_nil, by simp, by simp, fun target ht => .inl (h target ht)⟩
    · rintro ⟨targets, hnil, _, _, _, hall⟩ target htarget
      obtain rfl := List.map_eq_nil_iff.mp hnil.symm
      simpa using hall target htarget
  | cons branch rest ih =>
    rw [BranchesReady]
    constructor
    · rintro ⟨target, htarget, hseen, hout, hblank, hrest⟩
      obtain ⟨targets, hmap, hnodup, hin, hconditions, hall⟩ := ih.mp hrest
      refine ⟨target :: targets, by rw [List.map_cons, List.map_cons, htarget, hmap], ?_, ?_, ?_, ?_⟩
      · exact List.nodup_cons.mpr ⟨fun hmem => (hin target hmem).1 List.mem_cons_self, hnodup⟩
      · intro other hother
        rcases List.mem_cons.mp hother with rfl | hold
        · exact ⟨hseen, hout⟩
        · exact ⟨fun hmem => (hin other hold).1 (List.mem_cons_of_mem _ hmem), (hin other hold).2⟩
      · exact List.forall_mem_cons.mpr ⟨hblank, hconditions⟩
      · intro other hother
        rcases hall other hother with hold | hnew
        · rcases List.mem_cons.mp hold with rfl | hold
          · exact .inr List.mem_cons_self
          · exact .inl hold
        · exact .inr (List.mem_cons_of_mem _ hnew)
    · rintro ⟨targets, hmap, hnodup, hin, hconditions, hall⟩
      cases targets with
      | nil => simp at hmap
      | cons target targets =>
        rw [List.map_cons, List.map_cons, List.cons.injEq] at hmap
        obtain ⟨hfirst, hlater⟩ := List.nodup_cons.mp hnodup
        obtain ⟨hblank, hrest⟩ := List.forall_mem_cons.mp hconditions
        obtain ⟨hseen, hout⟩ := hin target List.mem_cons_self
        refine ⟨target, hmap.1, hseen, hout, hblank, ih.mpr ⟨targets, hmap.2, hlater, ?_, hrest, ?_⟩⟩
        · intro other hother
          refine ⟨fun hmem => ?_, (hin other (List.mem_cons_of_mem _ hother)).2⟩
          rcases List.mem_cons.mp hmem with rfl | hold
          · exact hfirst hother
          · exact (hin other (List.mem_cons_of_mem _ hother)).1 hold
        · intro other hother
          rcases hall other hother with hold | hnew
          · exact .inl (List.mem_cons_of_mem _ hold)
          · rcases List.mem_cons.mp hnew with rfl | hnew
            · exact .inl List.mem_cons_self
            · exact .inr hnew

/-- Where the targets are distinct, the branches name each of them once. -/
theorem branchesReady_perm (hnodup : outgoing.Nodup) : BranchesReady blank outgoing [] branches ↔
    (branches.map (·.targetNodeId)).Perm (outgoing.map some) ∧
      ∀ branch ∈ branches, blank (branch.condition.getD "") = false := by
  rw [branchesReady_iff]
  constructor
  · rintro ⟨targets, hmap, htargets, hin, hconditions, hall⟩
    have hperm : targets.Perm outgoing := by
      rw [List.perm_ext_iff_of_nodup htargets hnodup]
      exact fun target => ⟨fun hmem => (hin target hmem).2, fun hmem => by simpa using hall target hmem⟩
    exact ⟨hmap ▸ hperm.map some, hconditions⟩
  · rintro ⟨hperm, hconditions⟩
    have hsome (l : List String) : (l.map some).filterMap id = l := by
      rw [List.filterMap_map]
      exact List.filterMap_some
    have htargets : ((branches.map (·.targetNodeId)).filterMap id).Perm outgoing :=
      (hperm.filterMap id).trans (.of_eq (hsome outgoing))
    refine ⟨(branches.map (·.targetNodeId)).filterMap id, ?_, (htargets.nodup_iff).mpr hnodup, ?_,
      hconditions, fun target hmem => .inr (htargets.mem_iff.mpr hmem)⟩
    · have hall : ∀ target ∈ branches.map (·.targetNodeId), target.isSome := by
        intro target hmem
        obtain ⟨name, _, rfl⟩ := List.mem_map.mp (hperm.mem_iff.mp hmem)
        rfl
      generalize branches.map (·.targetNodeId) = found at hall
      induction found with
      | nil => rfl
      | cons first rest ih =>
        obtain ⟨hfirst, hrest⟩ := List.forall_mem_cons.mp hall
        obtain ⟨name, rfl⟩ := Option.isSome_iff_exists.mp hfirst
        have hhead : (some name :: rest).filterMap id = name :: rest.filterMap id := rfl
        rw [hhead, List.map_cons, ← ih hrest]
    · exact fun target hmem => ⟨List.not_mem_nil, htargets.mem_iff.mp hmem⟩

end Routing

theorem conditionNodes_eq_nil : conditionNodes graph = [] ↔
    ∀ node ∈ graph.nodes, node.kind ≠ .condition := by
  rw [conditionNodes, List.filter_eq_nil_iff]
  simp

/-- An accepted graph may run exactly when it has no Condition, or a known router and Conditions whose
branches name the targets of their edges, each once, and have conditions. -/
theorem validateGraphForRun_exact {validated : ValidatedGraph}
    (h : validateGraph graph = .ok validated) :
    (∃ validated, validateGraphForRun graph = .ok validated) ↔
      (∀ node ∈ graph.nodes, node.kind ≠ .condition) ∨
        (graph.routerExecutorConfig.map routerExecutorConfigHasExecutor).getD false = true ∧
        ∀ node ∈ graph.nodes, node.kind = .condition →
          ((node.data.branches.getD []).map (·.targetNodeId)).Perm
              (((graph.edges.filter fun edge => edge.source == node.id).map (·.target)).map some) ∧
            ∀ branch ∈ node.data.branches.getD [], isBlank (branch.condition.getD "") = false := by
  obtain ⟨start, haccepted⟩ := validateGraph_ok_iff.mp ⟨validated, h⟩
  have hready : ∀ node ∈ graph.nodes, node.kind = .condition →
      (BranchesReady isBlank (adjacencyMap graph node.id) [] (node.data.branches.getD []) ↔
        ((node.data.branches.getD []).map (·.targetNodeId)).Perm
            (((graph.edges.filter fun edge => edge.source == node.id).map (·.target)).map some) ∧
          ∀ branch ∈ node.data.branches.getD [], isBlank (branch.condition.getD "") = false) :=
    fun node hnode hkind => branchesReady_perm (haccepted.condition_targets node hnode hkind)
  rw [validateGraphForRun_ok_iff, RoutingReady, conditionNodes_eq_nil]
  constructor
  · rintro ⟨_, hnone | ⟨hrouter, hall⟩⟩
    · exact .inl hnone
    · refine .inr ⟨hrouter, fun node hnode hkind => (hready node hnode hkind).mp ?_⟩
      exact hall node (List.mem_filter.mpr ⟨hnode, by simpa using hkind⟩)
  · rintro (hnone | ⟨hrouter, hall⟩)
    · exact ⟨⟨start, haccepted⟩, .inl hnone⟩
    · refine ⟨⟨start, haccepted⟩, .inr ⟨hrouter, fun node hnode => ?_⟩⟩
      obtain ⟨hmem, hkind⟩ := List.mem_filter.mp hnode
      rw [decide_eq_true_eq] at hkind
      exact (hready node hmem hkind).mpr (hall node hmem hkind)

/-- A Condition between Start and End with its one branch. -/
def conditionGraph : WorkflowGraph :=
  ⟨2, [⟨"start", .start, ⟨none, none⟩⟩,
      ⟨"route", .condition, ⟨none, some [⟨some "end", some "always"⟩]⟩⟩, ⟨"end", .end, ⟨none, none⟩⟩],
    [⟨"e1", "start", "route"⟩, ⟨"e2", "route", "end"⟩],
    some (.obj [("executor", .str "CODEX")])⟩

theorem validateGraphForRun_conditionGraph :
    ∃ validated, validateGraphForRun conditionGraph = .ok validated :=
  (validateGraphForRun_exact (rfl : validateGraph conditionGraph = .ok ⟨2, "start", ["end"]⟩)).mpr
    (.inr ⟨by decide, by decide⟩)

end VibeKanban.Workflow
