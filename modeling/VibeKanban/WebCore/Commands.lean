import VibeKanban.Editor.History
import VibeKanban.WebCore.Graph

/-! The commands of the editor and what each makes of a graph. -/
namespace VibeKanban.WebCore
open Lib Editor

/-- The kinds of nodes that the catalog creates. -/
inductive AuthorableKind where
  | agent | condition | humanGate | transform | arena
  deriving DecidableEq, Repr

def AuthorableKind.toNodeKind : AuthorableKind → WorkflowNodeKind
  | .agent => .agent
  | .condition => .condition
  | .humanGate => .humanGate
  | .transform => .transform
  | .arena => .arena

/-- Partial data: the fields that it has, `some none` for a field that is given as `undefined`. -/
structure NodeDataPatch where
  sessionId : Option (Option String)
  branches : Option (Option (List WorkflowConditionBranch))
  requiredAction : Option (Option RequiredAction)
  others : List (String × Option Json)

def NodeDataPatch.empty : NodeDataPatch := ⟨none, none, none, []⟩

/-- The fields of the patch in place of those of the data. -/
def WorkflowNodeData.patch (data : WorkflowNodeData) (patch : NodeDataPatch) : WorkflowNodeData where
  sessionId := patch.sessionId.getD data.sessionId
  branches := patch.branches.getD data.branches
  requiredAction := patch.requiredAction.getD data.requiredAction
  others := patch.others.foldl setField data.others

inductive WorkflowAuthoringCommand where
  | createNode (nodeType : AuthorableKind) (position : WorkflowNodePosition)
    (nodeId : Option String) (data : Option NodeDataPatch)
  | configureNode (nodeId : String) (patch : NodeDataPatch)
  | moveNodes (positions : List (String × WorkflowNodePosition))
  | connect (source sourceHandle target : String) (edgeId : Option String)
  | createConnectedNode (source sourceHandle : String) (nodeType : AuthorableKind)
    (position : WorkflowNodePosition) (nodeId edgeId : Option String) (data : Option NodeDataPatch)
  | reconnect (edgeId : String) (source sourceHandle target : Option String)
  | splitEdge (edgeId : String) (nodeType : AuthorableKind) (position : WorkflowNodePosition)
    (nodeId : Option String)
  | splitEdgeWithNode (edgeId nodeId : String) (position : WorkflowNodePosition)
    (firstEdgeId secondEdgeId : Option String)
  | deleteEdge (edgeId : String)
  | deleteNodes (nodeIds : List String)
  | duplicateNode (nodeId : String) (duplicateId : Option String)
    (position : Option WorkflowNodePosition) (data : Option NodeDataPatch)

/-- The types of commands, the labels of the history. -/
inductive CommandType where
  | createNode | configureNode | moveNodes | connect | createConnectedNode | reconnect | splitEdge
  | splitEdgeWithNode | deleteEdge | deleteNodes | duplicateNode
  deriving DecidableEq, Repr

def WorkflowAuthoringCommand.type : WorkflowAuthoringCommand → CommandType
  | .createNode .. => .createNode
  | .configureNode .. => .configureNode
  | .moveNodes .. => .moveNodes
  | .connect .. => .connect
  | .createConnectedNode .. => .createConnectedNode
  | .reconnect .. => .reconnect
  | .splitEdge .. => .splitEdge
  | .splitEdgeWithNode .. => .splitEdgeWithNode
  | .deleteEdge .. => .deleteEdge
  | .deleteNodes .. => .deleteNodes
  | .duplicateNode .. => .duplicateNode

def arenaAttempt (id displayName : String) : Json :=
  .obj [("id", .str id), ("display_name", .str displayName), ("role_template_id", .str "custom"),
    ("prompt_template", .str "")]

def createDefaultNodeData : AuthorableKind → WorkflowNodeData
  | .agent => ⟨none, none, none, [("display_name", .str "Agent"),
      ("role_template_id", .str "custom"), ("prompt_template", .str "")]⟩
  | .condition => ⟨none, some [], none, [("display_name", .str "Condition"),
      ("routing_mode", .str "single")]⟩
  | .humanGate => ⟨none, none, some .approveOrReject, [("display_name", .str "Human Gate")]⟩
  | .transform => ⟨none, none, none, [("display_name", .str "Transform"), ("mode", .str "template"),
      ("template", .str "\x7b\x7binput\x7d\x7d")]⟩
  | .arena => ⟨none, none, none, [("display_name", .str "Arena"),
      ("promote_strategy", .str "manual"), ("apply_strategy", .str "diff_apply"),
      ("attempts", .arr [arenaAttempt "attempt-a" "Attempt A",
        arenaAttempt "attempt-b" "Attempt B"])]⟩

def createWorkflowNode (kind : AuthorableKind) (id : String) (data : Option NodeDataPatch)
    (position : WorkflowNodePosition) : WorkflowNode :=
  ⟨id, kind.toNodeKind, (createDefaultNodeData kind).patch (data.getD .empty), some position⟩

def createWorkflowEdge (id source : String) (sourceHandle : Option String) (target : String)
    (targetHandle : Option String) (type : Option WorkflowEdgeKind) (data : Option Json) :
    WorkflowEdge :=
  ⟨id, source, some (sourceHandle.getD "default"), target, some (targetHandle.getD "input"),
    type.getD .default, data⟩

/-- The given id, or the next one of the id factory. -/
def nextId (given : Option String) (ids : List String) : String × List String :=
  match given with
  | some id => (id, ids)
  | none => (ids.headD "", ids.tail)

def missingNodeIssue : WorkflowAuthoringIssue :=
  ⟨.missingNode, "The selected object no longer exists.", none, none⟩

abbrev CommandResult := Except WorkflowAuthoringIssue (GraphTransform WorkflowGraph)

def connectGraph (graph : WorkflowGraph) (source sourceHandle target : String)
    (edgeId : Option String) (ids : List String) : CommandResult :=
  match validateWorkflowConnection graph ⟨source, sourceHandle, target, none⟩ with
  | some issue => .error issue
  | none =>
    let edgeId := (nextId edgeId ids).1
    let type := (graph.nodes.find? fun node => node.id == source).bind fun node =>
      getWorkflowEdgeKindForHandle node sourceHandle
    let edge := createWorkflowEdge edgeId source (some sourceHandle) target (some "input")
      (some (type.getD .default)) none
    .ok ⟨{ graph with edges := graph.edges ++ [edge] }, some [], some (some edgeId), none, some edgeId⟩

/-- The edges that stay when a node gets other data: those of branches that stay, and the reject edges
of a gate that can still reject. -/
def retainedEdges (node : WorkflowNode) (patch : NodeDataPatch) (edges : List WorkflowEdge) :
    List WorkflowEdge :=
  let edges := match node.type, patch.branches with
    | WorkflowNodeKind.condition, some (some branches) =>
      let retainedHandles := (branches.filterMap fun branch => branch.id.filter fun id => id ≠ "").map
        fun branchId => "branch:" ++ branchId
      edges.filter fun edge => edge.source ≠ node.id ||
        (edge.sourceHandle.filter fun handle => startsWith handle "branch:").all fun handle =>
          handle ∈ retainedHandles
    | _, _ => edges
  if node.type = .humanGate ∧ patch.requiredAction = some (some .approve) then
    edges.filter fun edge => edge.source ≠ node.id ||
      (edge.sourceHandle ≠ some "reject" && edge.type ≠ .rejection)
  else edges

def createNode (graph : WorkflowGraph) (node : WorkflowNode) : GraphTransform WorkflowGraph :=
  ⟨{ graph with nodes := graph.nodes ++ [node] }, some [node.id], some none, some node.id, none⟩

def configureNode (graph : WorkflowGraph) (nodeId : String) (patch : NodeDataPatch) : CommandResult :=
  match graph.nodes.find? fun node => node.id == nodeId with
  | none => .error missingNodeIssue
  | some configuredNode => .ok ⟨{ graph with
      nodes := graph.nodes.map fun node =>
        if node.id = nodeId then { node with data := node.data.patch patch } else node
      edges := retainedEdges configuredNode patch graph.edges }, none, none, none, none⟩

def moveNodes (graph : WorkflowGraph) (positions : List (String × WorkflowNodePosition)) :
    GraphTransform WorkflowGraph :=
  ⟨{ graph with
    nodes := graph.nodes.map fun node =>
      match positions.lookup node.id with
      | some position => { node with position := some position }
      | none => node }, none, none, none, none⟩

/-- An issue of the connection is the issue of the command. -/
def createConnectedNode (graph : WorkflowGraph) (source sourceHandle : String) (node : WorkflowNode)
    (edgeId : String) : CommandResult :=
  match connectGraph { graph with nodes := graph.nodes ++ [node] } source sourceHandle node.id
    (some edgeId) [] with
  | .error issue => .error issue
  | .ok connected => .ok { connected with
      selectedNodeIds := some [node.id]
      selectedEdgeId := some none
      createdNodeId := some node.id
      createdEdgeId := some edgeId }

/-- The connection of an edge that is taken elsewhere. -/
def reconnection (edge : WorkflowEdge) (source sourceHandle target : Option String) : Connection :=
  ⟨source.getD edge.source, (sourceHandle.or edge.sourceHandle).getD "", target.getD edge.target,
    some edge.id⟩

/-- The edge keeps its type. -/
def reconnectedEdge (edge : WorkflowEdge) (connection : Connection) : WorkflowEdge :=
  createWorkflowEdge edge.id connection.source (some connection.sourceHandle) connection.target
    (some "input") (some edge.type) edge.data

def reconnect (graph : WorkflowGraph) (edgeId : String) (source sourceHandle target : Option String) :
    CommandResult :=
  match graph.edges.find? fun edge => edge.id == edgeId with
  | none => .error missingNodeIssue
  | some edge =>
    let connection := reconnection edge source sourceHandle target
    match validateWorkflowConnection graph connection with
    | some issue => .error issue
    | none => .ok ⟨{ graph with
        edges := graph.edges.map fun candidate =>
          if candidate.id = edge.id then reconnectedEdge candidate connection else candidate },
        some [], some (some edge.id), none, none⟩

/-- The edges into the node that splits an edge, and from it to the old target. -/
def splitEdges (edge : WorkflowEdge) (nodeId firstEdgeId secondEdgeId : String) : List WorkflowEdge :=
  [createWorkflowEdge firstEdgeId edge.source edge.sourceHandle nodeId (some "input")
      (some edge.type) edge.data,
    createWorkflowEdge secondEdgeId nodeId (some "default") edge.target
      (some (edge.targetHandle.getD "input")) none none]

def splitEdge (graph : WorkflowGraph) (edgeId : String) (nodeType : AuthorableKind)
    (position : WorkflowNodePosition) (nodeId : Option String) (ids : List String) : CommandResult :=
  match graph.edges.find? fun edge => edge.id == edgeId with
  | none => .error missingNodeIssue
  | some edge =>
    let (nodeId, ids) := nextId nodeId ids
    let node := createWorkflowNode nodeType nodeId none position
    let (firstEdgeId, ids) := nextId none ids
    let (secondEdgeId, _) := nextId none ids
    .ok ⟨{ graph with
      nodes := graph.nodes ++ [node]
      edges := graph.edges.filter (fun item => item.id ≠ edge.id) ++
        splitEdges edge nodeId firstEdgeId secondEdgeId }, some [nodeId], some none, some nodeId, none⟩

def splitEdgeWithNode (graph : WorkflowGraph) (edgeId nodeId : String)
    (position : WorkflowNodePosition) (firstEdgeId secondEdgeId : Option String)
    (ids : List String) : CommandResult :=
  match graph.edges.find? (fun edge => edge.id == edgeId),
    graph.nodes.find? (fun node => node.id == nodeId) with
  | some edge, some node =>
    if node.type = .start ∨ node.type = .end ∨ edge.source = node.id ∨ edge.target = node.id then
      .error missingNodeIssue
    else
      match (validateWorkflowConnection graph
          ⟨edge.source, edge.sourceHandle.getD "", node.id, some edge.id⟩).or
        (validateWorkflowConnection graph ⟨node.id, "default", edge.target, some edge.id⟩) with
      | some issue => .error issue
      | none =>
        let (firstEdgeId, ids) := nextId firstEdgeId ids
        let (secondEdgeId, _) := nextId secondEdgeId ids
        .ok ⟨{ graph with
          nodes := graph.nodes.map fun candidate =>
            if candidate.id = node.id then { candidate with position := some position } else candidate
          edges := graph.edges.filter (fun candidate => candidate.id ≠ edge.id) ++
            splitEdges edge node.id firstEdgeId secondEdgeId }, some [node.id], some none, none, none⟩
  | _, _ => .error missingNodeIssue

def deleteEdge (graph : WorkflowGraph) (edgeId : String) : GraphTransform WorkflowGraph :=
  ⟨{ graph with edges := graph.edges.filter fun edge => edge.id ≠ edgeId }, none, some none, none, none⟩

def deletable (graph : WorkflowGraph) (nodeIds : List String) : List String :=
  (graph.nodes.filter fun node =>
    node.id ∈ nodeIds && node.type ≠ .start && node.type ≠ .end).map (·.id)

def deleteNodes (graph : WorkflowGraph) (nodeIds : List String) : GraphTransform WorkflowGraph :=
  ⟨{ graph with
    nodes := graph.nodes.filter fun node => node.id ∉ deletable graph nodeIds
    edges := graph.edges.filter fun edge =>
      edge.source ∉ deletable graph nodeIds && edge.target ∉ deletable graph nodeIds },
    some [], some none, none, none⟩

/-- The duplicate has no session, and a Condition no branches but those of the given data. -/
def duplicate (original : WorkflowNode) (nodeId : String) (position : Option WorkflowNodePosition)
    (data : Option NodeDataPatch) : WorkflowNode :=
  let copied := { original.data with
    sessionId := none
    branches :=
      if original.type = WorkflowNodeKind.condition then some [] else original.data.branches }
  let old := original.position.getD ⟨0, 0⟩
  { original with
    id := nodeId
    data := copied.patch (data.getD .empty)
    position := some (position.getD ⟨old.x + 32, old.y + 32⟩) }

/-- What a command makes of a graph; `ids` are the ids that the id factory hands out. -/
def transformGraph (graph : WorkflowGraph) (command : WorkflowAuthoringCommand)
    (ids : List String) : CommandResult :=
  match command with
  | .createNode nodeType position nodeId data =>
    .ok (createNode graph (createWorkflowNode nodeType (nextId nodeId ids).1 data position))
  | .configureNode nodeId patch => configureNode graph nodeId patch
  | .moveNodes positions => .ok (moveNodes graph positions)
  | .connect source sourceHandle target edgeId =>
    connectGraph graph source sourceHandle target edgeId ids
  | .createConnectedNode source sourceHandle nodeType position nodeId edgeId data =>
    let (nodeId, ids) := nextId nodeId ids
    let (edgeId, _) := nextId edgeId ids
    createConnectedNode graph source sourceHandle
      (createWorkflowNode nodeType nodeId data position) edgeId
  | .reconnect edgeId source sourceHandle target => reconnect graph edgeId source sourceHandle target
  | .splitEdge edgeId nodeType position nodeId =>
    splitEdge graph edgeId nodeType position nodeId ids
  | .splitEdgeWithNode edgeId nodeId position firstEdgeId secondEdgeId =>
    splitEdgeWithNode graph edgeId nodeId position firstEdgeId secondEdgeId ids
  | .deleteEdge edgeId => .ok (deleteEdge graph edgeId)
  | .deleteNodes nodeIds => .ok (deleteNodes graph nodeIds)
  | .duplicateNode nodeId duplicateId position data =>
    match graph.nodes.find? fun node => node.id == nodeId with
    | none => .error missingNodeIssue
    | some original =>
      if original.type = .start ∨ original.type = .end then .error missingNodeIssue
      else .ok (createNode graph (duplicate original (nextId duplicateId ids).1 position data))

/-- The fields of a graph but for its nodes and edges. -/
structure WorkflowGraphMetadata where
  version : ℕ
  routerExecutorConfig : Option Json
  canvas : Option WorkflowCanvasData
  deriving DecidableEq, Repr

def graphParts : GraphParts WorkflowGraph WorkflowGraphMetadata WorkflowNode WorkflowEdge where
  metadata graph := ⟨graph.version, graph.routerExecutorConfig, graph.canvas⟩
  nodes := WorkflowGraph.nodes
  edges := WorkflowGraph.edges
  nodeId := WorkflowNode.id
  edgeId := WorkflowEdge.id
  build metadata nodes edges :=
    ⟨metadata.version, nodes, edges, metadata.routerExecutorConfig, metadata.canvas⟩
  metadata_build _ _ _ := rfl
  nodes_build _ _ _ := rfl
  edges_build _ _ _ := rfl

/-- The editor of workflow graphs; a command comes with the ids that the id factory hands out. -/
def workflowEditor : Editor.Authoring WorkflowGraph WorkflowGraphMetadata WorkflowNode WorkflowEdge
    (WorkflowAuthoringCommand × List String) CommandType WorkflowAuthoringIssue where
  parts := graphParts
  canonicalize := canonicalizeWorkflowAuthoringGraph
  type command := command.1.type
  transformGraph graph command := transformGraph graph command.1 command.2

end VibeKanban.WebCore
