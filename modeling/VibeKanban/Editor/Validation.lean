import VibeKanban.Workflow.Validation

/-! The editor's own validation of a workflow graph, which collects every issue, beside the acceptance
of the graph by the server, which stops at the first. -/
namespace VibeKanban.Editor
open Lib Workflow Relation

/-- The white space of JavaScript's `trim`. -/
def isJsSpace (c : Char) : Bool := (isWhitespace c && c.toNat != 0x85) || c.toNat == 0xFEFF

def jsTrimChars (s : List Char) : List Char :=
  ((s.dropWhile isJsSpace).reverse.dropWhile isJsSpace).reverse

def jsTrim (s : String) : String := String.ofList (jsTrimChars s.toList)

/-- Nothing is left by `trim`. -/
def isJsBlank (s : String) : Bool := (jsTrimChars s.toList).isEmpty

/-- The upper case of a text; `table` holds it for the characters beyond ASCII. -/
def toUpperCase (table : Char → List Char) (s : String) : String :=
  String.ofList (s.toList.flatMap fun c => if c.toNat < 128 then [c.toUpper] else table c)

inductive IssueType where
  | error | warning
  deriving DecidableEq, Repr

structure ValidationIssue where
  type : IssueType
  nodeId : Option String
  message : String
  deriving DecidableEq, Repr

def issue (message : String) : ValidationIssue := ⟨.error, none, message⟩

def issueAt (nodeId message : String) : ValidationIssue := ⟨.error, some nodeId, message⟩

def workflowGraphVersion : ℕ := 2

/-- One issue for each element that an earlier one repeats. -/
def repeated (report : String → ValidationIssue) : List String → List String → List ValidationIssue
  | _, [] => []
  | seen, a :: rest =>
    if a ∈ seen then report a :: repeated report (a :: seen) rest
    else repeated report (a :: seen) rest

def versionIssues (graph : WorkflowGraph) : List ValidationIssue :=
  if graph.version < 1 ∨ graph.version > workflowGraphVersion then
    [issue "Unsupported graph version"]
  else []

def startIssues (graph : WorkflowGraph) : List ValidationIssue :=
  if (startNodes graph).length ≠ 1 then
    [issue s!"Expected exactly 1 Start node, found {(startNodes graph).length}"]
  else []

def endIssues (graph : WorkflowGraph) : List ValidationIssue :=
  if (endNodeIds graph).length = 0 then [issue "Workflow must have at least one End node"] else []

def edgeIssues (nodeIds : List String) (edge : WorkflowEdge) : List ValidationIssue :=
  (if edge.source = edge.target then
    [issueAt edge.source s!"Self-edge found on node {edge.source}"] else []) ++
  (if edge.source ∉ nodeIds then
    [issueAt edge.source s!"Edge source node missing: {edge.source}"] else []) ++
  if edge.target ∉ nodeIds then
    [issueAt edge.target s!"Edge target node missing: {edge.target}"] else []

def getConditionOutgoingTargets (graph : WorkflowGraph) (conditionNodeId : String) : List String :=
  (graph.edges.filter fun edge => edge.source == conditionNodeId).map (·.target)

def validateConditionStructure (graph : WorkflowGraph) : List ValidationIssue :=
  graph.nodes.flatMap fun node =>
    if node.kind ≠ .condition then []
    else repeated (fun target => issueAt node.id
        s!"Condition node {node.id} has duplicate outgoing target: {target}")
      [] (getConditionOutgoingTargets graph node.id)

/-- The targets of the edges that leave a node, of the edges with both ends. -/
def buildAdjacency (graph : WorkflowGraph) (id : String) : List String :=
  (graph.edges.filter fun edge =>
    edge.source == id && graph.nodeIds.contains edge.source &&
      graph.nodeIds.contains edge.target).map (·.target)

/-- A string or `null`, where a condition is expected. -/
def truthy (value : Option String) : Bool := value.any fun s => s ≠ ""

/-- The first id that is not falsy, of visits one after the other. -/
def visitEach (visitOne : String → Marks String → Option String × Marks String) :
    List String → Marks String → Option String × Marks String
  | [], states => (none, states)
  | nodeId :: rest, states =>
    let result := visitOne nodeId states
    if truthy result.1 then result else visitEach visitOne rest result.2

/-- The id of a node on a cycle, or `null`, and the states of the nodes after the visit. -/
def visitNode (adjacency : String → List String) :
    ℕ → String → Marks String → Option String × Marks String
  | 0, nodeId, states => (some nodeId, states)
  | fuel + 1, nodeId, states =>
    match states.lookup nodeId with
    | some .visiting => (some nodeId, states)
    | some .visited => (none, states)
    | none =>
      let below := visitEach (visitNode adjacency fuel) (adjacency nodeId)
        ((nodeId, .visiting) :: states)
      if truthy below.1 then below else (none, (nodeId, .visited) :: below.2)

/-- The nodes are visited in order; a repeated id is already visited. -/
def findCycleNode (adjacency : String → List String) (fuel : ℕ) (nodeIds : List String) :
    Option String := (visitEach (visitNode adjacency fuel) nodeIds []).1

def cycleIssues (graph : WorkflowGraph) : List ValidationIssue :=
  match findCycleNode (buildAdjacency graph) (graph.nodes.length + graph.edges.length + 1)
    graph.nodeIds with
  | some cycleNodeId => [issueAt cycleNodeId s!"Workflow contains a cycle at {cycleNodeId}"]
  | none => []

def collectReachable (adjacency : String → List String) :
    ℕ → List String → List String → List String
  | 0, _, reachable => reachable
  | _ + 1, [], reachable => reachable
  | fuel + 1, nodeId :: queue, reachable =>
    if nodeId = "" ∨ nodeId ∈ reachable then collectReachable adjacency fuel queue reachable
    else collectReachable adjacency fuel (queue ++ adjacency nodeId) (reachable ++ [nodeId])

def findReachableNodes (graph : WorkflowGraph) (startNodeId : String) : List String :=
  collectReachable (buildAdjacency graph) (graph.edges.length + 2) [startNodeId] []

def reachabilityIssues (graph : WorkflowGraph) : List ValidationIssue :=
  match startNodes graph with
  | [start] => graph.nodes.flatMap fun node =>
    if node.kind ≠ .start ∧ node.id ∉ findReachableNodes graph start.id then
      [issueAt node.id s!"Unreachable node: {node.id}"]
    else []
  | _ => []

def baseCodingAgents : List String :=
  ["CLAUDE_CODE", "GEMINI", "CODEX", "OH_MY_PI", "OPENCODE", "DEEPSEEK_HARNESS"]

def hasRouterExecutorConfig (table : Char → List Char) : Option Json → Bool
  | some (.obj fields) =>
    match (Json.obj fields).get? "executor" with
    | some (.str executor) =>
      baseCodingAgents.contains (toUpperCase table (replaceChar '-' '_' (jsTrim executor)))
    | _ => false
  | _ => false

/-- The issues of one branch that names a target. -/
def branchIssues (nodeId : String) (outgoingTargets branchTargets : List String)
    (branch : ConditionBranch) (target : String) : List ValidationIssue :=
  (if target ∈ branchTargets then
    [issueAt nodeId s!"Condition node {nodeId} has duplicate branch target: {target}"] else []) ++
  (if target ∉ outgoingTargets then
    [issueAt nodeId s!"Condition node {nodeId} has stale branch target: {target}"] else []) ++
  if isJsBlank (branch.condition.getD "") then
    [issueAt nodeId s!"Condition node {nodeId} has empty branch condition for {target}"] else []

/-- The issues of the branches of one Condition, and the targets that they name. -/
def validateConditionBranches (nodeId : String) (outgoingTargets : List String) :
    List String → List ConditionBranch → List ValidationIssue × List String
  | branchTargets, [] => ([], branchTargets)
  | branchTargets, branch :: rest =>
    match branch.targetNodeId.filter fun target => target ≠ "" with
    | none =>
      let (issues, last) := validateConditionBranches nodeId outgoingTargets branchTargets rest
      (issueAt nodeId s!"Condition node {nodeId} has a branch without target" :: issues, last)
    | some target =>
      let (issues, last) :=
        validateConditionBranches nodeId outgoingTargets (target :: branchTargets) rest
      (branchIssues nodeId outgoingTargets branchTargets branch target ++ issues, last)

def conditionIssues (graph : WorkflowGraph) (node : WorkflowNode) : List ValidationIssue :=
  let outgoingTargets := getConditionOutgoingTargets graph node.id
  let (issues, branchTargets) :=
    validateConditionBranches node.id outgoingTargets [] (node.data.branches.getD [])
  issues ++ outgoingTargets.eraseDups.flatMap fun target =>
    if target ∉ branchTargets then
      [issueAt node.id s!"Condition node {node.id} is missing branch config for {target}"]
    else []

def validateConditionRunReadiness (table : Char → List Char) (graph : WorkflowGraph) :
    List ValidationIssue :=
  match conditionNodes graph with
  | [] => []
  | nodes =>
    (if hasRouterExecutorConfig table graph.routerExecutorConfig then []
      else [issue "Workflow with Condition nodes requires a router agent"]) ++
    nodes.flatMap (conditionIssues graph)

def validateWorkflowGraph (table : Char → List Char) (graph : WorkflowGraph)
    (includeRunReadiness : Bool) : List ValidationIssue :=
  versionIssues graph ++ startIssues graph ++ endIssues graph ++
    repeated (fun id => issue s!"Duplicate node ID found: {id}") [] graph.nodeIds ++
    graph.edges.flatMap (edgeIssues graph.nodeIds) ++ validateConditionStructure graph ++
    cycleIssues graph ++ reachabilityIssues graph ++
    if includeRunReadiness then validateConditionRunReadiness table graph else []

section Structure
variable {graph : WorkflowGraph}

theorem repeated_eq_nil {report : String → ValidationIssue} {seen l : List String} :
    repeated report seen l = [] ↔ l.Nodup ∧ ∀ a ∈ l, a ∉ seen := by
  induction l generalizing seen with
  | nil => simp [repeated]
  | cons a rest ih =>
    rw [repeated]
    split_ifs with ha
    · simp [ha]
    · rw [ih, List.nodup_cons, List.forall_mem_cons]
      constructor
      · rintro ⟨hnodup, hseen⟩
        have hnot : a ∉ rest := fun hmem => hseen a hmem List.mem_cons_self
        exact ⟨⟨hnot, hnodup⟩, ha, fun b hb hmem => hseen b hb (List.mem_cons_of_mem _ hmem)⟩
      · rintro ⟨⟨hnot, hnodup⟩, _, hseen⟩
        refine ⟨hnodup, fun b hb hmem => ?_⟩
        obtain rfl | hmem := List.mem_cons.mp hmem
        · exact hnot hb
        · exact hseen b hb hmem

theorem repeated_nil_eq_nil {report : String → ValidationIssue} {l : List String} :
    repeated report [] l = [] ↔ l.Nodup := by
  simp [repeated_eq_nil]

theorem versionIssues_eq_nil :
    versionIssues graph = [] ↔ graph.version = 1 ∨ graph.version = 2 := by
  unfold versionIssues workflowGraphVersion
  split_ifs with h
  · simp only [false_iff]
    omega
  · simp only [true_iff]
    omega

theorem startIssues_eq_nil : startIssues graph = [] ↔ ∃ start, startNodes graph = [start] := by
  unfold startIssues
  rw [← List.length_eq_one_iff]
  split_ifs with h
  · simp [h]
  · simpa using h

theorem endIssues_eq_nil :
    endIssues graph = [] ↔ ∃ node ∈ graph.nodes, node.kind = .end := by
  have hends : endNodeIds graph = [] ↔ ¬ ∃ node ∈ graph.nodes, node.kind = .end := by
    simp [endNodeIds, List.filter_eq_nil_iff]
  unfold endIssues
  split_ifs with h
  · simpa using hends.mp (List.eq_nil_of_length_eq_zero h)
  · simp only [true_iff]
    by_contra hnone
    exact h (List.length_eq_zero_iff.mpr (hends.mpr hnone))

theorem edgeIssues_eq_nil {nodeIds : List String} {edge : WorkflowEdge} :
    edgeIssues nodeIds edge = [] ↔
      edge.source ≠ edge.target ∧ edge.source ∈ nodeIds ∧ edge.target ∈ nodeIds := by
  unfold edgeIssues
  by_cases hself : edge.source = edge.target
  · simp [hself]
  · by_cases hsource : edge.source ∈ nodeIds
    · by_cases htarget : edge.target ∈ nodeIds
      · simp [hself, hsource, htarget]
      · simp [hself, hsource, htarget]
    · simp [hself, hsource]

theorem validateConditionStructure_eq_nil :
    validateConditionStructure graph = [] ↔
      ∀ node ∈ graph.nodes, node.kind = .condition → (adjacencyMap graph node.id).Nodup := by
  unfold validateConditionStructure
  rw [List.flatMap_eq_nil_iff]
  refine forall₂_congr fun node _ => ?_
  split_ifs with hkind
  · simp [hkind]
  · rw [repeated_nil_eq_nil, not_not.mp hkind]
    exact ⟨fun h _ => h, fun h => h rfl⟩

/-- With both ends of every edge the editor sees all edges. -/
theorem buildAdjacency_eq (h : ∀ e ∈ graph.edges, e.source ∈ graph.nodeIds ∧ e.target ∈ graph.nodeIds) :
    buildAdjacency graph = adjacencyMap graph := by
  funext id
  unfold buildAdjacency adjacencyMap
  refine congrArg _ (List.filter_congr fun e he => ?_)
  obtain ⟨hsource, htarget⟩ := h e he
  simp [hsource, htarget]

section Cycle
variable {next : String → List String}

theorem truthy_some {s : String} (h : s ≠ "") : truthy (some s) = true := by simpa [truthy] using h

theorem truthy_none : truthy none = false := rfl

/-- A visit of the editor does what the visit of a depth-first search does. -/
def Follows (result : Option String × Marks String) : Except String (Marks String) → Prop
  | .ok states => result = (none, states)
  | .error _ => truthy result.1 = true

theorem visitEach_follows {visitOne : String → Marks String → Option String × Marks String}
    {search : String → Marks String → Except String (Marks String)} {ids : List String}
    (h : ∀ id ∈ ids, ∀ states, Follows (visitOne id states) (search id states))
    (states : Marks String) :
    Follows (visitEach visitOne ids states)
      (ids.foldlM (fun states id => search id states) states) := by
  induction ids generalizing states with
  | nil => rfl
  | cons id rest ih =>
    obtain ⟨hid, hrest⟩ := List.forall_mem_cons.mp h
    have hvisit := hid states
    rw [List.foldlM_cons, visitEach]
    cases hsearch : search id states with
    | ok mid =>
      rw [hsearch] at hvisit
      have hresult : visitOne id states = (none, mid) := hvisit
      rw [hresult]
      exact ih hrest mid
    | error c =>
      rw [hsearch] at hvisit
      have hresult : truthy (visitOne id states).1 = true := hvisit
      simp only [hresult, if_true]
      exact hresult

theorem visitNode_follows (hnext : ∀ a, ∀ b ∈ next a, b ≠ "") (fuel : ℕ) {id : String}
    (hid : id ≠ "") (states : Marks String) :
    Follows (visitNode next fuel id states) (visit next fuel id states) := by
  induction fuel generalizing id states with
  | zero => exact truthy_some hid
  | succ fuel ih =>
    rw [visit, visitNode]
    cases hstate : states.lookup id with
    | some state =>
      cases state with
      | visiting => exact truthy_some hid
      | visited => rfl
    | none =>
      have hbelow := visitEach_follows (fun t ht states => ih (hnext id t ht) states)
        ((id, .visiting) :: states)
      cases hsearch : (next id).foldlM (fun states t => visit next fuel t states)
          ((id, .visiting) :: states) with
      | ok mid =>
        rw [hsearch] at hbelow
        have hresult : visitEach (visitNode next fuel) (next id) ((id, .visiting) :: states) =
          (none, mid) := hbelow
        simp only [hresult, truthy_none, Bool.false_eq_true, if_false]
        rfl
      | error c =>
        rw [hsearch] at hbelow
        have hresult : truthy
          (visitEach (visitNode next fuel) (next id) ((id, .visiting) :: states)).1 = true := hbelow
        simp only [hresult, if_true]
        exact hresult

/-- Without an empty id nothing is skipped. -/
theorem collectReachable_eq (hnext : ∀ a, ∀ b ∈ next a, b ≠ "") (fuel : ℕ) {queue : List String}
    (hqueue : ∀ id ∈ queue, id ≠ "") (reachable : List String) :
    collectReachable next fuel queue reachable = explore next fuel queue reachable := by
  induction fuel generalizing queue reachable with
  | zero => rfl
  | succ fuel ih =>
    cases queue with
    | nil => rfl
    | cons id rest =>
      obtain ⟨hid, hrest⟩ := List.forall_mem_cons.mp hqueue
      rw [collectReachable, explore]
      simp only [hid, false_or]
      split_ifs with hseen
      · exact ih hrest reachable
      · apply ih
        intro b hb
        obtain hb | hb := List.mem_append.mp hb
        · exact hrest b hb
        · exact hnext id b hb

end Cycle

section Sound
variable (hids : ∀ node ∈ graph.nodes, node.id ≠ "")
  (hedges : ∀ e ∈ graph.edges, e.source ∈ graph.nodeIds ∧ e.target ∈ graph.nodeIds)
include hids hedges

theorem adjacencyMap_ne_empty (a b : String) (hb : b ∈ adjacencyMap graph a) : b ≠ "" := by
  obtain ⟨e, he, rfl⟩ := List.mem_map.mp hb
  obtain ⟨node, hnode, hid⟩ := List.mem_map.mp (hedges e (List.mem_filter.mp he).1).2
  rw [← hid]
  exact hids node hnode

theorem cycleIssues_eq_nil :
    cycleIssues graph = [] ↔ ∀ id, ¬ TransGen graph.Edge id id := by
  have hnext := adjacencyMap_ne_empty hids hedges
  have hnodeIds : ∀ id ∈ graph.nodeIds, id ≠ "" := by
    intro id hid
    obtain ⟨node, hnode, rfl⟩ := List.mem_map.mp hid
    exact hids node hnode
  have hfollows := visitEach_follows (fun id hid states => visitNode_follows hnext
    (graph.nodes.length + graph.edges.length + 1) (hnodeIds id hid) states) []
  rw [cycleIssues, findCycleNode, buildAdjacency_eq hedges]
  cases hsearch : graph.nodeIds.foldlM (fun states id => visit (adjacencyMap graph)
      (graph.nodes.length + graph.edges.length + 1) id states) [] with
  | ok states =>
    rw [hsearch] at hfollows
    have hresult : visitEach (visitNode (adjacencyMap graph)
      (graph.nodes.length + graph.edges.length + 1)) graph.nodeIds [] = (none, states) := hfollows
    simp only [hresult, true_iff]
    have hempty : SettledAcyclic (adjacencyMap graph) [] :=
      ⟨fun a ha => by simp [Settled] at ha, fun a ha => by simp [Settled] at ha⟩
    obtain ⟨hstep, hsettled⟩ := visits_ok (visit_ok _) graph.nodeIds hempty hsearch
    intro id hcycle
    obtain ⟨b, ⟨e, he, rfl, _⟩, _⟩ := TransGen.head'_iff.mp hcycle
    rw [← next_adjacencyMap] at hcycle
    exact hstep.sound.acyclic _ (hsettled _ (hedges e he).1) hcycle
  | error c =>
    rw [hsearch] at hfollows
    have hresult : truthy (visitEach (visitNode (adjacencyMap graph)
      (graph.nodes.length + graph.edges.length + 1)) graph.nodeIds []).1 = true := hfollows
    cases hfound : (visitEach (visitNode (adjacencyMap graph)
        (graph.nodes.length + graph.edges.length + 1)) graph.nodeIds []).1 with
    | none => simp [hfound, truthy] at hresult
    | some id =>
      simp only [List.cons_ne_nil, false_iff]
      intro hacyclic
      obtain ⟨states, hstates, _⟩ := foldlM_succeeds
        (I := fun states : Marks String => ∀ a, ¬ InProgress states a)
        (fun states hstates id hid => visit_of_acyclic hacyclic
          (fun e he => (hedges e he).2) hid hstates)
        (x := []) (fun a ha => by simp [InProgress] at ha)
      rw [hsearch] at hstates
      cases hstates

theorem reachabilityIssues_eq_nil {start : WorkflowNode} (hstart : startNodes graph = [start]) :
    reachabilityIssues graph = [] ↔ ∀ node ∈ graph.nodes, node.kind ≠ .start →
      ReflTransGen graph.Edge start.id node.id := by
  have hmem : start ∈ graph.nodes := (List.mem_filter.mp (hstart ▸ List.mem_singleton_self start)).1
  have hreachable : findReachableNodes graph start.id = reachableNodes graph start.id := by
    rw [findReachableNodes, reachableNodes, buildAdjacency_eq hedges]
    apply collectReachable_eq (adjacencyMap_ne_empty hids hedges)
    intro id hid
    rw [List.mem_singleton.mp hid]
    exact hids start hmem
  simp only [reachabilityIssues, hstart, List.flatMap_eq_nil_iff]
  refine forall₂_congr fun node _ => ?_
  rw [← mem_reachableNodes_iff, ← hreachable]
  split_ifs with h
  · simp [h]
  · simp only [true_iff]
    intro hkind
    by_contra hnot
    exact h ⟨hkind, hnot⟩

end Sound

/-- What the editor reports of the structure, all checks together. -/
theorem structureIssues_eq_nil (table : Char → List Char)
    (hids : ∀ node ∈ graph.nodes, node.id ≠ "") :
    validateWorkflowGraph table graph false = [] ↔ ∃ start, graph.Accepted start := by
  simp only [validateWorkflowGraph, Bool.false_eq_true, if_false, List.append_nil,
    List.append_eq_nil_iff, versionIssues_eq_nil, startIssues_eq_nil, endIssues_eq_nil,
    repeated_nil_eq_nil, List.flatMap_eq_nil_iff, edgeIssues_eq_nil,
    validateConditionStructure_eq_nil]
  constructor
  · rintro ⟨⟨⟨⟨⟨⟨⟨hversion, start, hstart⟩, hend⟩, hnodup⟩, hedge⟩, hconditions⟩, hcycles⟩, hreach⟩
    have hedges (e : WorkflowEdge) (he : e ∈ graph.edges) := (hedge e he).2
    have hacyclic := (cycleIssues_eq_nil hids hedges).mp hcycles
    have hreachable := (reachabilityIssues_eq_nil hids hedges hstart).mp hreach
    obtain ⟨hmem, hkind⟩ := start_of_startNodes hnodup hstart
    refine ⟨start.id, hversion, hnodup, hkind, List.mem_map_of_mem hmem, hend,
      fun e he => (hedges e he).1, fun e he => (hedges e he).2, hconditions, hacyclic, ?_⟩
    intro id hid
    obtain ⟨node, hnode, rfl⟩ := List.mem_map.mp hid
    by_cases hk : node.kind = .start
    · rw [(hkind node hnode).mp hk]
    · exact hreachable node hnode hk
  · rintro ⟨start, h⟩
    have hedges (e : WorkflowEdge) (he : e ∈ graph.edges) :
        e.source ∈ graph.nodeIds ∧ e.target ∈ graph.nodeIds := ⟨h.source_mem e he, h.target_mem e he⟩
    have hself (e : WorkflowEdge) (he : e ∈ graph.edges) : e.source ≠ e.target :=
      fun heq => h.acyclic e.source (.single ⟨e, he, rfl, heq.symm⟩)
    obtain ⟨node, hstart, rfl⟩ := h.startNodes
    have hcycles := (cycleIssues_eq_nil hids hedges).mpr h.acyclic
    have hreach := (reachabilityIssues_eq_nil hids hedges hstart).mpr
      fun other hother _ => h.reachable _ (List.mem_map_of_mem hother)
    exact ⟨⟨⟨⟨⟨⟨⟨h.version, node, hstart⟩, h.end_mem⟩, h.nodup⟩,
      fun e he => ⟨hself e he, hedges e he⟩⟩, h.condition_targets⟩, hcycles⟩, hreach⟩

end Structure

section Routing
variable {graph : WorkflowGraph} {nodeId : String} {outgoing seen : List String}

theorem getConditionOutgoingTargets_eq (graph : WorkflowGraph) (id : String) :
    getConditionOutgoingTargets graph id = adjacencyMap graph id := rfl

theorem branchIssues_eq_nil {branch : ConditionBranch} {target : String} :
    branchIssues nodeId outgoing seen branch target = [] ↔
      target ∉ seen ∧ target ∈ outgoing ∧ isJsBlank (branch.condition.getD "") = false := by
  unfold branchIssues
  by_cases hseen : target ∈ seen
  · simp [hseen]
  · by_cases houtgoing : target ∈ outgoing
    · cases hblank : isJsBlank (branch.condition.getD "") with
      | true => simp [hseen, houtgoing]
      | false => simp [hseen, houtgoing]
    · simp [hseen, houtgoing]

theorem validateConditionBranches_ready {branches : List ConditionBranch}
    (htargets : ∀ branch ∈ branches, branch.targetNodeId ≠ some "") :
    ((validateConditionBranches nodeId outgoing seen branches).1 = [] ∧
      ∀ target ∈ outgoing, target ∈ (validateConditionBranches nodeId outgoing seen branches).2) ↔
        BranchesReady isJsBlank outgoing seen branches := by
  induction branches generalizing seen with
  | nil => simp [validateConditionBranches, BranchesReady]
  | cons branch rest ih =>
    obtain ⟨hbranch, hrest⟩ := List.forall_mem_cons.mp htargets
    rw [BranchesReady, validateConditionBranches]
    cases htarget : branch.targetNodeId with
    | none => simp
    | some target =>
      have hne : target ≠ "" := fun heq => hbranch (by rw [htarget, heq])
      have hkeep : (some target).filter (fun target => target ≠ "") = some target := by
        simp [hne]
      simp only [hkeep, List.append_eq_nil_iff, branchIssues_eq_nil, Option.some.injEq,
        exists_eq_left', ← ih hrest, and_assoc]

theorem conditionIssues_eq_nil {node : WorkflowNode}
    (htargets : ∀ branch ∈ node.data.branches.getD [], branch.targetNodeId ≠ some "") :
    conditionIssues graph node = [] ↔
      BranchesReady isJsBlank (adjacencyMap graph node.id) [] (node.data.branches.getD []) := by
  have hready : ((validateConditionBranches node.id (adjacencyMap graph node.id) []
      (node.data.branches.getD [])).1 = [] ∧ ∀ target ∈ adjacencyMap graph node.id,
        target ∈ (validateConditionBranches node.id (adjacencyMap graph node.id) []
          (node.data.branches.getD [])).2) ↔ _ := validateConditionBranches_ready htargets
  rw [← hready]
  simp only [conditionIssues, getConditionOutgoingTargets_eq, List.append_eq_nil_iff,
    List.flatMap_eq_nil_iff]
  refine and_congr_right fun _ => ?_
  constructor
  · intro h target htarget
    by_contra hnot
    have hissue := h target (List.mem_eraseDups.mpr htarget)
    simp [hnot] at hissue
  · intro h target htarget
    simp [h target (List.mem_eraseDups.mp htarget)]

theorem branchesReady_congr {blank blank' : String → Bool} {branches : List ConditionBranch}
    (h : ∀ branch ∈ branches,
      blank (branch.condition.getD "") = blank' (branch.condition.getD "")) :
    BranchesReady blank outgoing seen branches ↔ BranchesReady blank' outgoing seen branches := by
  induction branches generalizing seen with
  | nil => rfl
  | cons branch rest ih =>
    obtain ⟨hbranch, hrest⟩ := List.forall_mem_cons.mp h
    simp only [BranchesReady, hbranch, ih hrest]

theorem isJsSpace_ascii {c : Char} (h : c.toNat < 128) : isJsSpace c = isWhitespace c := by
  have hnel : (c.toNat != 0x85) = true := by simp; omega
  have hbom : (c.toNat == 0xFEFF) = false := by simp; omega
  rw [isJsSpace, hnel, hbom, Bool.and_true, Bool.or_false]

theorem dropWhile_ascii {s : List Char} (h : ∀ c ∈ s, c.toNat < 128) :
    s.dropWhile isJsSpace = s.dropWhile isWhitespace := by
  induction s with
  | nil => rfl
  | cons c rest ih =>
    obtain ⟨hc, hrest⟩ := List.forall_mem_cons.mp h
    rw [List.dropWhile_cons, List.dropWhile_cons, isJsSpace_ascii hc, ih hrest]

theorem jsTrim_ascii {s : String} (h : ∀ c ∈ s.toList, c.toNat < 128) : jsTrim s = trim s := by
  have hfirst := dropWhile_ascii h
  have hrest : ∀ c ∈ (s.toList.dropWhile isWhitespace).reverse, c.toNat < 128 := by
    intro c hc
    exact h c ((List.dropWhile_sublist _).subset (List.mem_reverse.mp hc))
  rw [jsTrim, trim, jsTrimChars, trimChars, trimStart, trimStart, hfirst, dropWhile_ascii hrest]

theorem toUpperCase_ascii (table : Char → List Char) {s : String}
    (h : ∀ c ∈ s.toList, c.toNat < 128) : toUpperCase table s = toAsciiUppercase s := by
  rw [toUpperCase, toAsciiUppercase]
  refine congrArg _ ?_
  generalize s.toList = l at h
  induction l with
  | nil => rfl
  | cons c rest ih =>
    obtain ⟨hc, hrest⟩ := List.forall_mem_cons.mp h
    rw [List.flatMap_cons, List.map_cons, if_pos hc, ih hrest]
    rfl

theorem ascii_trim {s : String} (h : ∀ c ∈ s.toList, c.toNat < 128) :
    ∀ c ∈ (trim s).toList, c.toNat < 128 := by
  intro c hc
  rw [trim, String.toList_ofList, trimChars, List.mem_reverse] at hc
  have hc := (List.dropWhile_sublist _).subset hc
  rw [List.mem_reverse] at hc
  exact h c ((List.dropWhile_sublist _).subset hc)

theorem ascii_replaceChar {s : String} (h : ∀ c ∈ s.toList, c.toNat < 128) :
    ∀ c ∈ (replaceChar '-' '_' s).toList, c.toNat < 128 := by
  intro c hc
  rw [replaceChar, String.toList_ofList] at hc
  obtain ⟨d, hd, rfl⟩ := List.mem_map.mp hc
  split_ifs
  · decide
  · exact h d hd

/-- The name of the executor that a router configuration holds has only ASCII characters. -/
def AsciiExecutor (config : Option Json) : Prop :=
  ∀ json executor, config = some json → json.get? "executor" = some (.str executor) →
    ∀ c ∈ executor.toList, c.toNat < 128

theorem hasExecutor_ascii (table : Char → List Char) {config : Option Json}
    (h : AsciiExecutor config) : hasRouterExecutorConfig table config =
      (config.map routerExecutorConfigHasExecutor).getD false := by
  cases config with
  | none => rfl
  | some json =>
    cases json with
    | obj fields =>
      simp only [hasRouterExecutorConfig, Option.map_some, Option.getD_some,
        routerExecutorConfigHasExecutor]
      cases hexecutor : (Json.obj fields).get? "executor" with
      | none => rfl
      | some value =>
        cases value with
        | str executor =>
          have hascii := h _ executor rfl hexecutor
          simp only [jsTrim_ascii hascii,
            toUpperCase_ascii table (ascii_replaceChar (ascii_trim hascii))]
          rfl
        | _ => rfl
    | _ => rfl

theorem validateConditionRunReadiness_eq_nil (table : Char → List Char)
    (htargets : ∀ node ∈ graph.nodes, ∀ branch ∈ node.data.branches.getD [],
      branch.targetNodeId ≠ some "")
    (hascii : AsciiExecutor graph.routerExecutorConfig) :
    validateConditionRunReadiness table graph = [] ↔
      RoutingReady isJsBlank routerExecutorConfigHasExecutor graph := by
  unfold validateConditionRunReadiness RoutingReady
  have hmem : ∀ node ∈ conditionNodes graph, node ∈ graph.nodes :=
    fun node hnode => (List.mem_filter.mp hnode).1
  cases hnodes : conditionNodes graph with
  | nil => simp
  | cons node rest =>
    rw [hnodes] at hmem
    simp only [List.append_eq_nil_iff, List.flatMap_eq_nil_iff, reduceCtorEq, false_or,
      hasExecutor_ascii table hascii]
    refine and_congr ?_ (forall₂_congr fun other hother =>
      conditionIssues_eq_nil (htargets other (hmem other hother)))
    split_ifs with hrouter
    · simp [hrouter]
    · simp [hrouter]

end Routing

/-- The editor and the server accept the same graphs, where the two languages find the same branch
conditions blank. -/
theorem validators_agree (table : Char → List Char) (graph : WorkflowGraph)
    (hids : ∀ node ∈ graph.nodes, node.id ≠ "")
    (htargets : ∀ node ∈ graph.nodes, ∀ branch ∈ node.data.branches.getD [],
      branch.targetNodeId ≠ some "")
    (hascii : AsciiExecutor graph.routerExecutorConfig)
    (hblank : ∀ node ∈ graph.nodes, ∀ branch ∈ node.data.branches.getD [],
      isJsBlank (branch.condition.getD "") = isBlank (branch.condition.getD "")) :
    (validateWorkflowGraph table graph true = [] ↔
        ∃ validated, validateGraphForRun graph = .ok validated) ∧
      (validateWorkflowGraph table graph false = [] ↔
        ∃ validated, validateGraph graph = .ok validated) := by
  have hstructure := structureIssues_eq_nil table hids
  constructor
  · have hsplit : validateWorkflowGraph table graph true = [] ↔
        validateWorkflowGraph table graph false = [] ∧
          validateConditionRunReadiness table graph = [] := by
      simp [validateWorkflowGraph, and_assoc]
    rw [hsplit, hstructure, validateConditionRunReadiness_eq_nil table htargets hascii,
      validateGraphForRun_ok_iff]
    refine and_congr_right fun _ => or_congr_right (and_congr_right fun _ => ?_)
    refine forall₂_congr fun node hnode => ?_
    exact branchesReady_congr (hblank node (List.mem_filter.mp hnode).1)
  · rw [hstructure, validateGraph_ok_iff]

/-- Start, a Condition with one branch, and End. -/
def oneBranch (condition : String) : WorkflowGraph where
  version := 2
  nodes := [⟨"start", .start, ⟨none, none⟩⟩,
    ⟨"choice", .condition, ⟨none, some [⟨some "end", some condition⟩]⟩⟩,
    ⟨"end", .end, ⟨none, none⟩⟩]
  edges := [⟨"e1", "start", "choice"⟩, ⟨"e2", "choice", "end"⟩]
  routerExecutorConfig := some (.obj [("executor", .str "CODEX")])

theorem validators_agree_oneBranch :
    (validateWorkflowGraph (fun c => [c]) (oneBranch "done") true = [] ↔
        ∃ validated, validateGraphForRun (oneBranch "done") = .ok validated) ∧
      (validateWorkflowGraph (fun c => [c]) (oneBranch "done") false = [] ↔
        ∃ validated, validateGraph (oneBranch "done") = .ok validated) := by
  refine validators_agree _ _ (by decide) (by decide) ?_ (by decide)
  intro json executor hjson hexecutor
  obtain rfl := Option.some.inj hjson
  obtain rfl : "CODEX" = executor := by
    simpa [Json.get?] using hexecutor
  have hascii : ("CODEX".toList.all fun c => c.toNat < 128) = true := by decide
  intro c hc
  exact of_decide_eq_true (List.all_eq_true.mp hascii c hc)

/-- A condition that is only a byte order mark is blank in JavaScript and not in Rust. -/
theorem byte_order_mark_disagrees :
    ¬ (validateWorkflowGraph (fun c => [c]) (oneBranch "\uFEFF") true = [] ↔
      ∃ validated, validateGraphForRun (oneBranch "\uFEFF") = .ok validated) := by
  intro h
  have hserver : validateGraphForRun (oneBranch "\uFEFF") = .ok ⟨2, "start", ["end"]⟩ := by decide
  have heditor := h.mpr ⟨_, hserver⟩
  revert heditor
  decide

end VibeKanban.Editor
