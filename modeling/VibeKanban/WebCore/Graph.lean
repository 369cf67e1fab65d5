import Mathlib.Data.Rat.Defs
import VibeKanban.Editor.Validation
import VibeKanban.Lib.Json

/-! The workflow graph as the editor draws it: nodes with their data and places, and edges that leave a
node by one of its handles. -/
namespace VibeKanban.WebCore
open Lib

inductive WorkflowNodeKind where
  | start | «end» | agent | condition | humanGate | transform | arena
  deriving DecidableEq, Repr

inductive WorkflowEdgeKind where
  | default | conditionBranch | approval | rejection | arenaWinner
  deriving DecidableEq, Repr

inductive RequiredAction where
  | approve | approveOrReject
  deriving DecidableEq, Repr

structure WorkflowConditionBranch where
  id : Option String
  targetNodeId : Option String
  condition : Option String
  deriving DecidableEq, Repr

/-- The data of a node; `others` are the fields that only its own views read. -/
structure WorkflowNodeData where
  sessionId : Option String
  branches : Option (List WorkflowConditionBranch)
  requiredAction : Option RequiredAction
  others : List (String × Json)
  deriving DecidableEq, Repr

/-- A field gets a value at its place, or a new one at the end; without a value it goes. -/
def setField (fields : List (String × Json)) (field : String × Option Json) :
    List (String × Json) :=
  match field.2 with
  | none => fields.filter fun other => other.1 ≠ field.1
  | some value =>
    if fields.any fun other => other.1 == field.1 then
      fields.map fun other => if other.1 = field.1 then (field.1, value) else other
    else fields ++ [(field.1, value)]

structure WorkflowNodePosition where
  x : ℚ
  y : ℚ
  deriving DecidableEq, Repr

structure WorkflowNode where
  id : String
  type : WorkflowNodeKind
  data : WorkflowNodeData
  position : Option WorkflowNodePosition
  deriving DecidableEq, Repr

structure WorkflowEdge where
  id : String
  source : String
  sourceHandle : Option String
  target : String
  targetHandle : Option String
  type : WorkflowEdgeKind
  data : Option Json
  deriving DecidableEq, Repr

inductive WorkflowCanvasObjectColor where
  | amber | blue | green | neutral
  deriving DecidableEq, Repr

structure WorkflowCanvasObjectSize where
  width : Option ℚ
  height : Option ℚ
  deriving DecidableEq, Repr

structure WorkflowCanvasStickyNote where
  id : String
  title : Option String
  content : Option String
  position : Option WorkflowNodePosition
  size : Option WorkflowCanvasObjectSize
  color : Option WorkflowCanvasObjectColor
  deriving DecidableEq, Repr

structure WorkflowCanvasStageGroup where
  id : String
  title : Option String
  description : Option String
  position : Option WorkflowNodePosition
  size : Option WorkflowCanvasObjectSize
  color : Option WorkflowCanvasObjectColor
  deriving DecidableEq, Repr

structure WorkflowCanvasData where
  notes : List WorkflowCanvasStickyNote
  groups : List WorkflowCanvasStageGroup
  deriving DecidableEq, Repr

structure WorkflowGraph where
  version : ℕ
  nodes : List WorkflowNode
  edges : List WorkflowEdge
  routerExecutorConfig : Option Json
  canvas : Option WorkflowCanvasData
  deriving DecidableEq, Repr

def workflowGraphVersion : ℕ := 2

/-- A prefix of a text, as `startsWith` tests it. -/
def startsWith (s start : String) : Bool := start.toList.isPrefixOf s.toList

inductive WorkflowSemanticHandleKind where
  | input | default | winner | approve | reject | conditionBranch
  deriving DecidableEq, Repr

structure WorkflowSemanticHandle where
  id : String
  kind : WorkflowSemanticHandleKind
  label : String
  branchId : Option String
  deriving DecidableEq, Repr

def padTwo (n : ℕ) : String := if n < 10 then "0" ++ toString n else toString n

/-- The id of a branch that has none, by its place. -/
def defaultBranchId (nodeId : String) (index : ℕ) : String :=
  "branch-" ++ nodeId ++ "-" ++ padTwo (index + 1)

/-- The trimmed text, or another where nothing is left. -/
def textOr (text : Option String) (other : String) : String :=
  match text with
  | some s => if Editor.isJsBlank s then other else Editor.jsTrim s
  | none => other

def branchHandle (nodeId : String) (branch : WorkflowConditionBranch) (index : ℕ) :
    WorkflowSemanticHandle :=
  let branchId := branch.id.getD (defaultBranchId nodeId index)
  ⟨"branch:" ++ branchId, .conditionBranch, textOr branch.condition s!"Branch {index + 1}",
    some branchId⟩

def getWorkflowNodeSourceHandles (node : WorkflowNode) : List WorkflowSemanticHandle :=
  match node.type with
  | .end => []
  | .condition =>
    (node.data.branches.getD []).zipIdx.map fun entry => branchHandle node.id entry.1 entry.2
  | .humanGate =>
    if node.data.requiredAction = some .approve then [⟨"approve", .approve, "Approve", none⟩]
    else [⟨"approve", .approve, "Approve", none⟩, ⟨"reject", .reject, "Reject", none⟩]
  | .arena => [⟨"winner", .winner, "Winner", none⟩]
  | _ => [⟨"default", .default, "Next", none⟩]

def edgeKind : WorkflowSemanticHandleKind → WorkflowEdgeKind
  | .conditionBranch => .conditionBranch
  | .approve => .approval
  | .reject => .rejection
  | .winner => .arenaWinner
  | _ => .default

def getWorkflowEdgeKindForHandle (source : WorkflowNode) (sourceHandle : String) :
    Option WorkflowEdgeKind :=
  ((getWorkflowNodeSourceHandles source).find? fun candidate => candidate.id == sourceHandle).map
    fun handle => edgeKind handle.kind

/-- The handles that were positions on the border of a node. -/
def legacyPositionalHandleIds : List String :=
  ["port-left", "port-top", "port-right", "port-bottom", "input-left", "input-top", "input-right",
    "input-bottom", "output-left", "output-top", "output-right", "output-bottom"]

def resolveSemanticSourceHandle (source : WorkflowNode) (edge : WorkflowEdge) : String :=
  match source.type with
  | .condition =>
    match edge.sourceHandle.filter fun handle => startsWith handle "branch:" with
    | some handle => handle
    | none =>
      let branch := (source.data.branches.getD []).find? fun candidate =>
        candidate.targetNodeId == some edge.target
      "branch:" ++ (branch.bind (·.id)).getD ("branch-" ++ edge.id)
  | .humanGate => if edge.type = .rejection then "reject" else "approve"
  | .arena => "winner"
  | _ => "default"

/-- Every branch of a Condition with an id; the data without the fields of older versions. -/
def canonicalData (node : WorkflowNode) : WorkflowNodeData := { node.data with
  branches :=
    if node.type = .condition then
      some ((node.data.branches.getD []).zipIdx.map fun entry =>
        { entry.1 with id := some (entry.1.id.getD (defaultBranchId node.id entry.2)) })
    else node.data.branches
  others := node.data.others.filter fun field => field.1 ≠ "selected_skills" }

def canonicalNode (node : WorkflowNode) (nodeIndex : ℕ) : WorkflowNode := { node with
  data := canonicalData node
  position := some (node.position.getD ⟨120 + nodeIndex * 300, 160⟩) }

/-- The last node with an id, as a map of the nodes by their ids holds it. -/
def nodeById (nodes : List WorkflowNode) (id : String) : Option WorkflowNode :=
  nodes.reverse.find? fun node => node.id == id

def canonicalEdge (nodes : List WorkflowNode) (edge : WorkflowEdge) : WorkflowEdge :=
  match nodeById nodes edge.source with
  | none => edge
  | some source =>
    let sourceHandle := resolveSemanticSourceHandle source edge
    { edge with
      sourceHandle := some sourceHandle
      targetHandle :=
        match edge.targetHandle with
        | none => some "input"
        | some handle =>
          if handle = "" ∨ handle ∈ legacyPositionalHandleIds then some "input" else some handle
      type := (getWorkflowEdgeKindForHandle source sourceHandle).getD edge.type }

/-- The key of a branch among the connected ones. -/
def branchKey (nodeId branchId : String) : String := nodeId ++ ":" ++ branchId

/-- The keys of the branches that edges leave by, with the targets of the edges. -/
def connectedBranches (edges : List WorkflowEdge) : List (String × String) :=
  edges.filterMap fun edge =>
    match edge.sourceHandle.filter fun handle => startsWith handle "branch:" with
    | some handle =>
      some (branchKey edge.source (String.ofList (handle.toList.drop 7)), edge.target)
    | none => none

/-- The target under a key; a later edge takes the place of an earlier one. -/
def connectedBranchById (edges : List WorkflowEdge) (key : String) : Option String :=
  ((connectedBranches edges).reverse.find? fun entry => entry.1 == key).map Prod.snd

def targetBranches (edges : List WorkflowEdge) (node : WorkflowNode) : WorkflowNode :=
  if node.type ≠ .condition then node
  else { node with
    data := { node.data with
      branches := some ((node.data.branches.getD []).map fun branch => { branch with
        targetNodeId := (branch.id.filter fun id => id ≠ "").bind fun id =>
          connectedBranchById edges (branchKey node.id id) }) } }

def canonicalizeWorkflowAuthoringGraph (graph : WorkflowGraph) : WorkflowGraph :=
  let nodes := graph.nodes.zipIdx.map fun entry => canonicalNode entry.1 entry.2
  let edges := graph.edges.map (canonicalEdge nodes)
  { graph with
    version := workflowGraphVersion
    nodes := nodes.map (targetBranches edges)
    edges := edges }

inductive WorkflowAuthoringIssueCode where
  | missingNode | selfConnection | endSource | startTarget | invalidSourceHandle
  | occupiedSourceHandle | duplicateConnection
  deriving DecidableEq, Repr

structure WorkflowAuthoringIssue where
  code : WorkflowAuthoringIssueCode
  message : String
  nodeId : Option String
  edgeId : Option String
  deriving DecidableEq, Repr

structure Connection where
  source : String
  sourceHandle : String
  target : String
  ignoredEdgeId : Option String

def validateWorkflowConnection (graph : WorkflowGraph) (connection : Connection) :
    Option WorkflowAuthoringIssue :=
  match graph.nodes.find? (fun node => node.id == connection.source),
    graph.nodes.find? (fun node => node.id == connection.target) with
  | some source, some target =>
    if source.id = target.id then
      some ⟨.selfConnection, "A Node cannot connect to itself.", some source.id, none⟩
    else if source.type = .end then
      some ⟨.endSource, "End cannot start a connection.", some source.id, none⟩
    else if target.type = .start then
      some ⟨.startTarget, "Start cannot receive a connection.", some target.id, none⟩
    else if getWorkflowEdgeKindForHandle source connection.sourceHandle = none then
      some ⟨.invalidSourceHandle, "Choose a valid route from the source Node.", some source.id, none⟩
    else
      match graph.edges.find? fun edge => some edge.id != connection.ignoredEdgeId &&
          edge.source == source.id && edge.sourceHandle == some connection.sourceHandle &&
          startsWith connection.sourceHandle "branch:" with
      | some occupied => some ⟨.occupiedSourceHandle, "This Condition branch is already connected.",
          some source.id, some occupied.id⟩
      | none =>
        (graph.edges.find? fun edge => some edge.id != connection.ignoredEdgeId &&
          edge.source == source.id && edge.sourceHandle == some connection.sourceHandle &&
          edge.target == target.id).map fun duplicate => ⟨.duplicateConnection,
            "This route is already connected to the target Node.", none, some duplicate.id⟩
  | _, _ => some ⟨.missingNode, "Connection endpoint is missing.", none, none⟩

end VibeKanban.WebCore
