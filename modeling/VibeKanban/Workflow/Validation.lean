import VibeKanban.Lib.Except
import VibeKanban.Lib.Search
import VibeKanban.Lib.Text
import VibeKanban.Workflow.Graph

/-! Acceptance of a workflow graph, for storing and for running, and what acceptance implies. -/
namespace VibeKanban.Workflow
open Lib Relation

structure ValidatedGraph where
  version : ℕ
  startNodeId : String
  endNodeIds : List String
  deriving DecidableEq, Repr

/-- The first element that an earlier one repeats. -/
def firstDuplicate : List String → List String → Option String
  | _, [] => none
  | seen, a :: rest => if a ∈ seen then some a else firstDuplicate (a :: seen) rest

def startNodes (graph : WorkflowGraph) : List WorkflowNode :=
  graph.nodes.filter fun node => decide (node.kind = .start)

def endNodeIds (graph : WorkflowGraph) : List String :=
  (graph.nodes.filter fun node => decide (node.kind = .end)).map (·.id)

def conditionNodes (graph : WorkflowGraph) : List WorkflowNode :=
  graph.nodes.filter fun node => decide (node.kind = .condition)

/-- The targets of the edges that leave a node, in edge order. -/
def adjacencyMap (graph : WorkflowGraph) (id : String) : List String :=
  (graph.edges.filter fun edge => edge.source == id).map (·.target)

def checkEdges (nodeIds : List String) : List WorkflowEdge → Except String Unit
  | [] => .ok ()
  | edge :: rest =>
    if edge.source ∉ nodeIds then
      .error s!"edge `{edge.id}` has missing source node `{edge.source}`"
    else if edge.target ∉ nodeIds then
      .error s!"edge `{edge.id}` has missing target node `{edge.target}`"
    else checkEdges nodeIds rest

def rejectDuplicateConditionTargets (graph : WorkflowGraph) :
    List WorkflowNode → Except String Unit
  | [] => .ok ()
  | node :: rest =>
    match firstDuplicate [] (adjacencyMap graph node.id) with
    | some target =>
      .error s!"condition node `{node.id}` has duplicate outgoing target `{target}`"
    | none => rejectDuplicateConditionTargets graph rest

def visitForCycle (graph : WorkflowGraph) (id : String) (states : Marks String) :
    Except String (Marks String) :=
  match visit (adjacencyMap graph) (graph.nodes.length + graph.edges.length + 1) id states with
  | .error cycleId => .error s!"workflow graph contains a cycle at `{cycleId}`"
  | .ok states => .ok states

def rejectCycles (graph : WorkflowGraph) : List String → Marks String → Except String Unit
  | [], _ => .ok ()
  | id :: rest, states =>
    if (states.lookup id).isSome then rejectCycles graph rest states
    else match visitForCycle graph id states with
      | .error message => .error message
      | .ok states => rejectCycles graph rest states

def reachableNodes (graph : WorkflowGraph) (startNodeId : String) : List String :=
  explore (adjacencyMap graph) (graph.edges.length + 2) [startNodeId] []

def checkReachable (reachable : List String) : List WorkflowNode → Except String Unit
  | [] => .ok ()
  | node :: rest =>
    if node.kind ≠ .start ∧ node.id ∉ reachable then .error s!"unreachable node `{node.id}`"
    else checkReachable reachable rest

def validateGraph (graph : WorkflowGraph) : Except String ValidatedGraph :=
  if graph.version ≠ 1 ∧ graph.version ≠ 2 then
    .error s!"unsupported workflow graph version {graph.version}"
  else match firstDuplicate [] graph.nodeIds with
    | some id => .error s!"duplicate node id `{id}`"
    | none => match startNodes graph with
      | [] => .error "missing start node"
      | _ :: _ :: _ => .error "workflow graph must contain exactly one start node"
      | [start] =>
        if endNodeIds graph = [] then .error "missing end node"
        else do
          checkEdges graph.nodeIds graph.edges
          rejectDuplicateConditionTargets graph (conditionNodes graph)
          rejectCycles graph graph.nodeIds []
          checkReachable (reachableNodes graph start.id) graph.nodes
          return ⟨graph.version, start.id, endNodeIds graph⟩

def isKnownExecutor (executor : String) : Bool :=
  ["CLAUDE_CODE", "GEMINI", "CODEX", "OH_MY_PI", "OPENCODE", "DEEPSEEK_HARNESS"].contains
    (toAsciiUppercase (replaceChar '-' '_' (trim executor)))

def routerExecutorConfigHasExecutor (config : Json) : Bool :=
  match (config.get? "executor").bind Json.asStr? with
  | some executor => isKnownExecutor executor
  | none => false

/-- The branches of one Condition, in order; returns the targets they name. -/
def checkBranches (nodeId : String) (outgoing : List String) :
    List String → List ConditionBranch → Except String (List String)
  | seen, [] => .ok seen
  | seen, branch :: rest =>
    match branch.targetNodeId with
    | none => .error s!"condition node `{nodeId}` has a branch without target"
    | some target =>
      if target ∈ seen then
        .error s!"condition node `{nodeId}` has duplicate branch target `{target}`"
      else if target ∉ outgoing then
        .error s!"condition node `{nodeId}` has stale branch target `{target}`"
      else if isBlank (branch.condition.getD "") then
        .error s!"condition node `{nodeId}` has empty branch condition for target `{target}`"
      else checkBranches nodeId outgoing (target :: seen) rest

def checkConditionNode (graph : WorkflowGraph) (node : WorkflowNode) : Except String Unit := do
  let outgoing := adjacencyMap graph node.id
  let branchTargets ← checkBranches node.id outgoing [] (node.data.branches.getD [])
  match outgoing.find? fun target => !branchTargets.contains target with
  | some target =>
    .error s!"condition node `{node.id}` is missing branch config for target `{target}`"
  | none => .ok ()

def validateConditionRoutingForRun (graph : WorkflowGraph) : Except String Unit :=
  match conditionNodes graph with
  | [] => .ok ()
  | nodes =>
    if (graph.routerExecutorConfig.map routerExecutorConfigHasExecutor).getD false then
      nodes.forM (checkConditionNode graph)
    else .error "workflow with condition nodes requires router executor config"

def validateGraphForRun (graph : WorkflowGraph) : Except String ValidatedGraph := do
  let validated ← validateGraph graph
  validateConditionRoutingForRun graph
  return validated

/-- What an accepted graph is. -/
structure WorkflowGraph.Accepted (graph : WorkflowGraph) (start : String) : Prop where
  version : graph.version = 1 ∨ graph.version = 2
  nodup : graph.nodeIds.Nodup
  start_iff : ∀ node ∈ graph.nodes, node.kind = .start ↔ node.id = start
  start_mem : start ∈ graph.nodeIds
  end_mem : ∃ node ∈ graph.nodes, node.kind = .end
  source_mem : ∀ e ∈ graph.edges, e.source ∈ graph.nodeIds
  target_mem : ∀ e ∈ graph.edges, e.target ∈ graph.nodeIds
  condition_targets : ∀ node ∈ graph.nodes, node.kind = .condition →
    (adjacencyMap graph node.id).Nodup
  acyclic : ∀ id, ¬ TransGen graph.Edge id id
  reachable : ∀ id ∈ graph.nodeIds, ReflTransGen graph.Edge start id

section Sound
variable {graph : WorkflowGraph}

theorem next_adjacencyMap : Next (adjacencyMap graph) = graph.Edge := by
  funext a b
  simp [Next, adjacencyMap, WorkflowGraph.Edge, and_assoc]

theorem firstDuplicate_none {seen l : List String} (h : firstDuplicate seen l = none) :
    l.Nodup ∧ ∀ a ∈ l, a ∉ seen := by
  induction l generalizing seen with
  | nil => simp
  | cons a rest ih =>
    simp only [firstDuplicate] at h
    split_ifs at h with ha
    obtain ⟨hn, hs⟩ := ih h
    refine ⟨List.nodup_cons.mpr ⟨fun hm => hs a hm List.mem_cons_self, hn⟩, ?_⟩
    intro b hb
    rcases List.mem_cons.mp hb with rfl | hb
    · exact ha
    · exact fun hseen => hs b hb (List.mem_cons_of_mem _ hseen)

theorem checkEdges_ok {ids : List String} {edges : List WorkflowEdge}
    (h : checkEdges ids edges = .ok ()) : ∀ e ∈ edges, e.source ∈ ids ∧ e.target ∈ ids := by
  induction edges with
  | nil => simp
  | cons e rest ih =>
    simp only [checkEdges] at h
    split_ifs at h with hs ht
    intro x hx
    rcases List.mem_cons.mp hx with rfl | hx
    · exact ⟨by simpa using hs, by simpa using ht⟩
    · exact ih h x hx

theorem rejectDuplicateConditionTargets_ok {nodes : List WorkflowNode}
    (h : rejectDuplicateConditionTargets graph nodes = .ok ()) :
    ∀ node ∈ nodes, (adjacencyMap graph node.id).Nodup := by
  induction nodes with
  | nil => simp
  | cons node rest ih =>
    simp only [rejectDuplicateConditionTargets] at h
    cases hd : firstDuplicate [] (adjacencyMap graph node.id) with
    | some t => simp [hd] at h
    | none =>
      simp only [hd] at h
      intro x hx
      rcases List.mem_cons.mp hx with rfl | hx
      · exact (firstDuplicate_none hd).1
      · exact ih h x hx

theorem rejectCycles_ok {ids : List String} {states : Marks String}
    (hs : SettledAcyclic (adjacencyMap graph) states) (hp : ∀ a, ¬ InProgress states a)
    (h : rejectCycles graph ids states = .ok ()) :
    ∀ id ∈ ids, ¬ TransGen graph.Edge id id := by
  induction ids generalizing states with
  | nil => simp
  | cons id rest ih =>
    simp only [rejectCycles] at h
    have hsettled : ∃ states', SettledAcyclic (adjacencyMap graph) states' ∧
        (∀ a, ¬ InProgress states' a) ∧ Settled states' id ∧
        rejectCycles graph rest states' = .ok () := by
      split_ifs at h with hid
      · obtain ⟨state, hstate⟩ := Option.isSome_iff_exists.mp hid
        cases state with
        | visiting => exact absurd hstate (hp id)
        | visited => exact ⟨states, hs, hp, hstate, h⟩
      · cases hv : visitForCycle graph id states with
        | error m => simp [hv] at h
        | ok states' =>
          simp only [hv] at h
          simp only [visitForCycle] at hv
          split at hv
          · cases hv
          · rename_i marks hvisit
            obtain rfl : marks = states' := Except.ok.inj hv
            obtain ⟨hstep, hset⟩ := visit_ok _ hs hvisit
            exact ⟨marks, hstep.sound, fun a ha => hp a ((hstep.inProgress_iff a).mp ha),
              hset, h⟩
    obtain ⟨states', hs', hp', hset, hrest⟩ := hsettled
    intro x hx
    rcases List.mem_cons.mp hx with rfl | hx
    · have hacyclic := hs'.acyclic x hset
      rwa [next_adjacencyMap] at hacyclic
    · exact ih hs' hp' hrest x hx

theorem checkReachable_ok {reachable : List String} {nodes : List WorkflowNode}
    (h : checkReachable reachable nodes = .ok ()) :
    ∀ node ∈ nodes, node.kind ≠ .start → node.id ∈ reachable := by
  induction nodes with
  | nil => simp
  | cons node rest ih =>
    simp only [checkReachable] at h
    split_ifs at h with hn
    intro x hx hk
    rcases List.mem_cons.mp hx with rfl | hx
    · by_contra hmem
      exact hn ⟨hk, hmem⟩
    · exact ih h x hx hk

theorem mem_reachableNodes {start id : String} (h : id ∈ reachableNodes graph start) :
    ReflTransGen graph.Edge start id := by
  rcases explore_reachable _ h with h | ⟨a, ha, hab⟩
  · simp at h
  · rw [List.mem_singleton.mp ha] at hab
    rwa [next_adjacencyMap] at hab

theorem ok_bind {ε α β : Type} (a : α) (f : α → Except ε β) : (Except.ok a >>= f) = f a := rfl

theorem start_of_startNodes {start : WorkflowNode} (hnodup : graph.nodeIds.Nodup)
    (h : startNodes graph = [start]) :
    start ∈ graph.nodes ∧ ∀ node ∈ graph.nodes, node.kind = .start ↔ node.id = start.id := by
  have hmem : ∀ node, node ∈ graph.nodes ∧ node.kind = .start ↔ node = start := by
    intro node
    have hm : node ∈ startNodes graph ↔ node = start := by rw [h, List.mem_singleton]
    rw [← hm]
    simp [startNodes]
  obtain ⟨hstart, hkind⟩ := (hmem start).mpr rfl
  refine ⟨hstart, fun node hnode => ⟨fun hk => by rw [(hmem node).mp ⟨hnode, hk⟩], fun hid => ?_⟩⟩
  rw [List.inj_on_of_nodup_map hnodup hnode hstart hid]
  exact hkind

theorem validateGraph_accepted {validated : ValidatedGraph}
    (h : validateGraph graph = .ok validated) : graph.Accepted validated.startNodeId := by
  have hversion : graph.version = 1 ∨ graph.version = 2 := by
    by_contra hv
    push Not at hv
    simp [validateGraph, hv] at h
  have hnot : ¬ (graph.version ≠ 1 ∧ graph.version ≠ 2) := by tauto
  rw [validateGraph, if_neg hnot] at h
  cases hd : firstDuplicate [] graph.nodeIds with
  | some id => simp [hd] at h
  | none =>
    have hnodup := (firstDuplicate_none hd).1
    simp only [hd] at h
    split at h
    · cases h
    · cases h
    · rename_i start hstart
      split_ifs at h with hend
      obtain ⟨_, hedges, h⟩ := except_bind_ok h
      obtain ⟨_, hcond, h⟩ := except_bind_ok h
      obtain ⟨_, hcycles, h⟩ := except_bind_ok h
      obtain ⟨_, hreach, h⟩ := except_bind_ok h
      obtain rfl := Except.ok.inj h
      obtain ⟨hmem, hkind⟩ := start_of_startNodes hnodup hstart
      have hknown := checkEdges_ok hedges
      refine ⟨hversion, hnodup, hkind, List.mem_map_of_mem hmem, ?_, fun e he => (hknown e he).1,
        fun e he => (hknown e he).2, ?_, ?_, ?_⟩
      · obtain ⟨id, hid⟩ := List.exists_mem_of_ne_nil _ hend
        obtain ⟨node, hnode, _⟩ := List.mem_map.mp hid
        obtain ⟨hn, hk⟩ := List.mem_filter.mp hnode
        exact ⟨node, hn, by simpa using hk⟩
      · intro node hnode hk
        exact rejectDuplicateConditionTargets_ok hcond node
          (List.mem_filter.mpr ⟨hnode, by simpa using hk⟩)
      · intro id hcycle
        have hid : id ∈ graph.nodeIds := by
          obtain ⟨b, ⟨e, he, rfl, _⟩, _⟩ := TransGen.head'_iff.mp hcycle
          exact (hknown e he).1
        have hempty : SettledAcyclic (adjacencyMap graph) [] :=
          ⟨fun a ha => by simp [Settled] at ha, fun a ha => by simp [Settled] at ha⟩
        exact rejectCycles_ok hempty (fun a ha => by simp [InProgress] at ha) hcycles id hid hcycle
      · intro id hid
        obtain ⟨node, hnode, rfl⟩ := List.mem_map.mp hid
        by_cases hk : node.kind = .start
        · rw [(hkind node hnode).mp hk]
        · exact mem_reachableNodes (checkReachable_ok hreach node hnode hk)

theorem validateGraphForRun_accepted {validated : ValidatedGraph}
    (h : validateGraphForRun graph = .ok validated) : graph.Accepted validated.startNodeId := by
  obtain ⟨v, hv, h⟩ := except_bind_ok h
  obtain ⟨_, _, h⟩ := except_bind_ok h
  obtain rfl := Except.ok.inj h
  exact validateGraph_accepted hv

/-- No edge enters Start: its source would be downstream of Start, on a cycle. -/
theorem WorkflowGraph.Accepted.no_edge_into_start {start : String} (h : graph.Accepted start)
    {e : WorkflowEdge} (he : e ∈ graph.edges) : e.target ≠ start := by
  intro ht
  have hreach := h.reachable e.source (h.source_mem e he)
  exact h.acyclic start (TransGen.tail' hreach ⟨e, he, rfl, ht⟩)

theorem firstDuplicate_of_nodup {seen l : List String} (hnodup : l.Nodup)
    (hseen : ∀ a ∈ l, a ∉ seen) : firstDuplicate seen l = none := by
  induction l generalizing seen with
  | nil => rfl
  | cons a rest ih =>
    obtain ⟨ha, hrest⟩ := List.nodup_cons.mp hnodup
    rw [firstDuplicate, if_neg (hseen a List.mem_cons_self)]
    apply ih hrest
    intro b hb hmem
    obtain rfl | hmem := List.mem_cons.mp hmem
    · exact ha hb
    · exact hseen b (List.mem_cons_of_mem _ hb) hmem

theorem firstDuplicate_eq_none {l : List String} : firstDuplicate [] l = none ↔ l.Nodup :=
  ⟨fun h => (firstDuplicate_none h).1,
    fun h => firstDuplicate_of_nodup h fun _ _ hmem => absurd hmem List.not_mem_nil⟩

theorem checkEdges_of_mem {ids : List String} {edges : List WorkflowEdge}
    (h : ∀ e ∈ edges, e.source ∈ ids ∧ e.target ∈ ids) : checkEdges ids edges = .ok () := by
  induction edges with
  | nil => rfl
  | cons e rest ih =>
    obtain ⟨⟨hsource, htarget⟩, hrest⟩ := List.forall_mem_cons.mp h
    rw [checkEdges, if_neg (not_not.mpr hsource), if_neg (not_not.mpr htarget)]
    exact ih hrest

theorem rejectDuplicateConditionTargets_of_nodup {nodes : List WorkflowNode}
    (h : ∀ node ∈ nodes, (adjacencyMap graph node.id).Nodup) :
    rejectDuplicateConditionTargets graph nodes = .ok () := by
  induction nodes with
  | nil => rfl
  | cons node rest ih =>
    obtain ⟨hnode, hrest⟩ := List.forall_mem_cons.mp h
    simp only [rejectDuplicateConditionTargets, firstDuplicate_eq_none.mpr hnode]
    exact ih hrest

theorem visit_of_acyclic (hacyclic : ∀ id, ¬ TransGen graph.Edge id id)
    (htarget : ∀ e ∈ graph.edges, e.target ∈ graph.nodeIds) {id : String}
    (hid : id ∈ graph.nodeIds) {states : Marks String} (hstates : ∀ a, ¬ InProgress states a) :
    ∃ states', visit (adjacencyMap graph) (graph.nodes.length + graph.edges.length + 1) id states =
      .ok states' ∧ ∀ a, ¬ InProgress states' a := by
  have hclosed : ∀ a ∈ graph.nodeIds, ∀ b ∈ adjacencyMap graph a, b ∈ graph.nodeIds := by
    intro a _ b hb
    obtain ⟨e, he, rfl⟩ := List.mem_map.mp hb
    exact htarget e (List.mem_filter.mp he).1
  have hfuel : (unvisited graph.nodeIds states).length <
      graph.nodes.length + graph.edges.length + 1 := by
    have hunvisited : (unvisited graph.nodeIds states).length ≤ graph.nodeIds.length :=
      List.length_filter_le _ _
    have hlength : graph.nodeIds.length = graph.nodes.length := List.length_map _
    omega
  rw [← next_adjacencyMap] at hacyclic
  obtain ⟨states', hvisit, hsame⟩ := visit_acyclic hacyclic hclosed _ hid
    (fun a ha => absurd ha (hstates a)) hfuel
  exact ⟨states', hvisit, fun a ha => hstates a ((hsame a).mp ha)⟩

theorem rejectCycles_of_acyclic (hacyclic : ∀ id, ¬ TransGen graph.Edge id id)
    (htarget : ∀ e ∈ graph.edges, e.target ∈ graph.nodeIds) {ids : List String}
    (hids : ∀ id ∈ ids, id ∈ graph.nodeIds) {states : Marks String}
    (hstates : ∀ a, ¬ InProgress states a) : rejectCycles graph ids states = .ok () := by
  induction ids generalizing states with
  | nil => rfl
  | cons id rest ih =>
    obtain ⟨hid, hrest⟩ := List.forall_mem_cons.mp hids
    rw [rejectCycles]
    split_ifs with hseen
    · exact ih hrest hstates
    · obtain ⟨states', hvisit, hstates'⟩ := visit_of_acyclic hacyclic htarget hid hstates
      simp only [visitForCycle, hvisit]
      exact ih hrest hstates'

/-- The edges whose source has not been reached. -/
def unexplored (graph : WorkflowGraph) (reached : List String) : ℕ :=
  (graph.edges.filter fun edge => edge.source ∉ reached).length

theorem unexplored_append (reached : List String) (id : String) (hid : id ∉ reached) :
    unexplored graph (reached ++ [id]) + (adjacencyMap graph id).length ≤
      unexplored graph reached := by
  rw [adjacencyMap, List.length_map, unexplored, unexplored]
  induction graph.edges with
  | nil => simp
  | cons e rest ih =>
    by_cases hsource : e.source = id
    · simp [hsource, hid] at ih ⊢
      omega
    · by_cases hmem : e.source ∈ reached
      · simpa [hsource, hmem] using ih
      · simp [hsource, hmem] at ih ⊢
        omega

theorem reachableNodes_complete {start id : String} (h : ReflTransGen graph.Edge start id) :
    id ∈ reachableNodes graph start := by
  have hfuel : [start].length + unexplored graph [] < graph.edges.length + 2 := by
    have hle : unexplored graph [] ≤ graph.edges.length := List.length_filter_le _ _
    rw [List.length_singleton]
    omega
  obtain ⟨hall, hclosed⟩ := explore_complete unexplored_append _ hfuel
    fun a ha => absurd ha List.not_mem_nil
  rw [← next_adjacencyMap] at h
  induction h with
  | refl => exact hall start (.inr (List.mem_singleton_self _))
  | tail _ hstep ih => exact hclosed _ ih _ hstep

theorem mem_reachableNodes_iff {start id : String} :
    id ∈ reachableNodes graph start ↔ ReflTransGen graph.Edge start id :=
  ⟨mem_reachableNodes, reachableNodes_complete⟩

theorem checkReachable_of_mem {reachable : List String} {nodes : List WorkflowNode}
    (h : ∀ node ∈ nodes, node.kind ≠ .start → node.id ∈ reachable) :
    checkReachable reachable nodes = .ok () := by
  induction nodes with
  | nil => rfl
  | cons node rest ih =>
    obtain ⟨hnode, hrest⟩ := List.forall_mem_cons.mp h
    rw [checkReachable, if_neg fun hbad => hbad.2 (hnode hbad.1)]
    exact ih hrest

/-- The only node of the kind Start. -/
theorem WorkflowGraph.Accepted.startNodes {start : String} (h : graph.Accepted start) :
    ∃ node, startNodes graph = [node] ∧ node.id = start := by
  have hids : (Workflow.startNodes graph).map (·.id) = [start] := by
    have hfilter : (Workflow.startNodes graph).map (·.id) =
        graph.nodeIds.filter fun id => id = start := by
      rw [Workflow.startNodes, WorkflowGraph.nodeIds, List.filter_map]
      refine congrArg _ (List.filter_congr fun node hnode => ?_)
      simp [h.start_iff node hnode]
    rw [hfilter]
    have hcount := List.count_eq_one_of_mem h.nodup h.start_mem
    rw [List.filter_eq, hcount]
    rfl
  obtain ⟨node, hnodes, hid⟩ := List.map_eq_singleton_iff.mp hids
  exact ⟨node, hnodes, hid⟩

theorem validateGraph_of_accepted {start : String} (h : graph.Accepted start) :
    validateGraph graph = .ok ⟨graph.version, start, endNodeIds graph⟩ := by
  obtain ⟨node, hstart, rfl⟩ := h.startNodes
  have hversion : ¬ (graph.version ≠ 1 ∧ graph.version ≠ 2) := by
    have hv := h.version
    tauto
  have hend : endNodeIds graph ≠ [] := by
    obtain ⟨last, hlast, hkind⟩ := h.end_mem
    refine List.ne_nil_of_mem (a := last.id) ?_
    exact List.mem_map_of_mem (List.mem_filter.mpr ⟨hlast, by simpa using hkind⟩)
  have hconditions : ∀ node ∈ conditionNodes graph, (adjacencyMap graph node.id).Nodup := by
    intro node hnode
    obtain ⟨hmem, hkind⟩ := List.mem_filter.mp hnode
    exact h.condition_targets node hmem (by simpa using hkind)
  have hreachable : ∀ other ∈ graph.nodes, other.kind ≠ .start →
      other.id ∈ reachableNodes graph node.id :=
    fun other hother _ => reachableNodes_complete (h.reachable _ (List.mem_map_of_mem hother))
  have hcycles : rejectCycles graph graph.nodeIds [] = .ok () :=
    rejectCycles_of_acyclic h.acyclic h.target_mem (fun _ hid => hid)
      fun a ha => by simp [InProgress] at ha
  rw [validateGraph, if_neg hversion]
  simp only [firstDuplicate_eq_none.mpr h.nodup, hstart, if_neg hend, hcycles,
    checkEdges_of_mem fun e he => ⟨h.source_mem e he, h.target_mem e he⟩,
    rejectDuplicateConditionTargets_of_nodup hconditions, checkReachable_of_mem hreachable]
  rfl

/-- A graph is accepted exactly when it is what acceptance implies. -/
theorem validateGraph_ok_iff :
    (∃ validated, validateGraph graph = .ok validated) ↔ ∃ start, graph.Accepted start :=
  ⟨fun ⟨_, h⟩ => ⟨_, validateGraph_accepted h⟩, fun ⟨_, h⟩ => ⟨_, validateGraph_of_accepted h⟩⟩

/-- The branches of a Condition name distinct targets of its edges and have a condition. -/
def BranchesReady (blank : String → Bool) (outgoing seen : List String) :
    List ConditionBranch → Prop
  | [] => ∀ target ∈ outgoing, target ∈ seen
  | branch :: rest => ∃ target, branch.targetNodeId = some target ∧ target ∉ seen ∧
    target ∈ outgoing ∧ blank (branch.condition.getD "") = false ∧
      BranchesReady blank outgoing (target :: seen) rest

theorem checkBranches_ok_iff {nodeId : String} {outgoing seen : List String}
    {branches : List ConditionBranch} :
    (∃ targets, checkBranches nodeId outgoing seen branches = .ok targets ∧
      ∀ target ∈ outgoing, target ∈ targets) ↔ BranchesReady isBlank outgoing seen branches := by
  induction branches generalizing seen with
  | nil =>
    constructor
    · rintro ⟨targets, h, hall⟩
      obtain rfl := Except.ok.inj h
      exact hall
    · exact fun hall => ⟨seen, rfl, hall⟩
  | cons branch rest ih =>
    rw [BranchesReady]
    cases htarget : branch.targetNodeId with
    | none => simp [checkBranches, htarget]
    | some target =>
      simp only [checkBranches, htarget, Option.some.injEq, exists_eq_left']
      by_cases hseen : target ∈ seen
      · simp [hseen]
      · by_cases houtgoing : target ∈ outgoing
        · cases hblank : isBlank (branch.condition.getD "") with
          | true => simp [hseen, houtgoing]
          | false => simp [hseen, houtgoing, ih]
        · simp [hseen, houtgoing]

/-- The Conditions can be routed, for a notion of blank text. -/
def RoutingReady (blank : String → Bool) (executor : Json → Bool) (graph : WorkflowGraph) : Prop :=
  conditionNodes graph = [] ∨ (graph.routerExecutorConfig.map executor).getD false = true ∧
    ∀ node ∈ conditionNodes graph,
      BranchesReady blank (adjacencyMap graph node.id) [] (node.data.branches.getD [])

theorem checkConditionNode_ok_iff {node : WorkflowNode} :
    checkConditionNode graph node = .ok () ↔
      BranchesReady isBlank (adjacencyMap graph node.id) [] (node.data.branches.getD []) := by
  rw [← @checkBranches_ok_iff node.id, checkConditionNode, except_bind_iff]
  refine exists_congr fun targets => and_congr_right fun _ => ?_
  cases hfind : (adjacencyMap graph node.id).find? fun target => !targets.contains target with
  | none =>
    have hall := List.find?_eq_none.mp hfind
    simp only [true_iff]
    exact fun target htarget => by simpa using hall target htarget
  | some target =>
    have hnot : target ∉ targets := by simpa using List.find?_some hfind
    simp only [reduceCtorEq, false_iff]
    exact fun hall => hnot (hall target (List.mem_of_find?_eq_some hfind))

theorem validateConditionRoutingForRun_ok_iff :
    validateConditionRoutingForRun graph = .ok () ↔
      RoutingReady isBlank routerExecutorConfigHasExecutor graph := by
  unfold validateConditionRoutingForRun RoutingReady
  cases hnodes : conditionNodes graph with
  | nil => simp
  | cons node rest =>
    simp only [reduceCtorEq, false_or]
    split_ifs with hrouter
    · rw [forM_ok_iff]
      simp only [checkConditionNode_ok_iff, hrouter, true_and]
    · simp [hrouter]

theorem validateGraphForRun_ok_iff :
    (∃ validated, validateGraphForRun graph = .ok validated) ↔
      (∃ start, graph.Accepted start) ∧ RoutingReady isBlank routerExecutorConfigHasExecutor graph := by
  rw [← validateGraph_ok_iff, ← validateConditionRoutingForRun_ok_iff]
  constructor
  · rintro ⟨validated, h⟩
    obtain ⟨v, hv, h⟩ := except_bind_ok h
    obtain ⟨_, hrouting, _⟩ := except_bind_ok h
    exact ⟨⟨v, hv⟩, hrouting⟩
  · rintro ⟨⟨v, hv⟩, hrouting⟩
    refine ⟨v, ?_⟩
    rw [validateGraphForRun, hv, hrouting]
    rfl

end Sound

end VibeKanban.Workflow
