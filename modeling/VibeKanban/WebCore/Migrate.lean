import VibeKanban.WebCore.Wired

/-! What opening a stored workflow makes of its graph, before the editor takes it over. -/
namespace VibeKanban.WebCore
open Lib

def defaultSourceHandle : String := "default"

def defaultTargetHandle : String := "input"

def workflowPortHandleIds : List String := ["port-left", "port-top", "port-right", "port-bottom"]

def normalizeWorkflowPortHandle (handle : Option String) (fallback : String) : String :=
  match handle with
  | none => fallback
  | some handle =>
    if handle = "input-left" ∨ handle = "output-left" then "port-left"
    else if handle = "input-top" ∨ handle = "output-top" then "port-top"
    else if handle = "input-right" ∨ handle = "output-right" then "port-right"
    else if handle = "input-bottom" ∨ handle = "output-bottom" then "port-bottom"
    else handle

def resolveWorkflowSemanticTargetHandle (handle : Option String) : String :=
  match handle with
  | none => defaultTargetHandle
  | some handle =>
    if handle = "" then defaultTargetHandle
    else if handle ∈ workflowPortHandleIds ∨ startsWith handle "input-" then "input"
    else handle

def isLegacyWorkflowPortHandle (handle : String) : Bool := handle ∈ legacyPositionalHandleIds

/-- A handle that is no position stays. -/
def plainSourceHandle (handle : Option String) : String :=
  match handle with
  | some handle =>
    if handle ≠ "" ∧ isLegacyWorkflowPortHandle handle = false then handle else defaultSourceHandle
  | none => defaultSourceHandle

/-- An edge from a Condition leaves by the branch with its target; without one, by a name of its own. -/
def resolveWorkflowSemanticSourceHandle (source : Option WorkflowNode) (edge : WorkflowEdge) : String :=
  match source with
  | none => plainSourceHandle edge.sourceHandle
  | some source =>
    match source.type with
    | .condition =>
      match edge.sourceHandle.filter fun handle => startsWith handle "branch:" with
      | some handle => handle
      | none =>
        let branch := (source.data.branches.getD []).find? fun candidate =>
          candidate.targetNodeId == some edge.target
        "branch:" ++ (branch.bind (·.id)).getD ("branch-" ++ edge.id)
    | .humanGate =>
      if edge.sourceHandle = some "reject" then "reject"
      else if edge.type = .rejection then "reject" else "approve"
    | .arena => "winner"
    | _ => plainSourceHandle edge.sourceHandle

def semanticEdge (nodes : List WorkflowNode) (edge : WorkflowEdge) : WorkflowEdge := { edge with
  sourceHandle := some (resolveWorkflowSemanticSourceHandle (nodeById nodes edge.source) edge)
  targetHandle := some (resolveWorkflowSemanticTargetHandle edge.targetHandle) }

def normalizeWorkflowSemanticHandles (graph : WorkflowGraph) : WorkflowGraph :=
  { graph with edges := graph.edges.map (semanticEdge graph.nodes) }

def getBranchId (conditionNodeId targetNodeId : String) : String :=
  "branch-" ++ conditionNodeId ++ "-" ++ targetNodeId

/-- The targets of the edges that leave a Condition, each once. -/
def getConditionBranchTargets (graph : WorkflowGraph) (conditionNodeId : String) : List String :=
  ((graph.edges.filter fun edge => edge.source = conditionNodeId).map (·.target)).eraseDups

/-- The branch with a target; of several, the last. -/
def currentByTarget (branches : List WorkflowConditionBranch) (target : String) :
    Option WorkflowConditionBranch :=
  if target = "" then none
  else branches.reverse.find? fun branch => branch.targetNodeId == some target

def syncBranch (node : WorkflowNode) (target : String) : WorkflowConditionBranch :=
  match currentByTarget (node.data.branches.getD []) target with
  | some current => ⟨some (current.id.getD (getBranchId node.id target)), some target,
      some (current.condition.getD "")⟩
  | none => ⟨some (getBranchId node.id target), some target, some ""⟩

/-- A field that is neither absent nor null. -/
def field? (fields : List (String × Json)) (name : String) : Option Json :=
  (fields.lookup name).filter fun value => value ≠ .null

/-- The fields of a Condition without those of older versions, and with a way of routing. -/
def conditionFields (others : List (String × Json)) : List (String × Json) :=
  let kept := others.filter fun field => field.1 ≠ "conditions" ∧ field.1 ≠ "joiner"
  setField kept ("routing_mode", some ((field? kept "routing_mode").getD (.str "single")))

def syncNode (graph : WorkflowGraph) (node : WorkflowNode) : WorkflowNode :=
  if node.type ≠ .condition then node
  else { node with data := { node.data with
    branches := some ((getConditionBranchTargets graph node.id).map (syncBranch node))
    others := conditionFields node.data.others } }

/-- Each Condition gets the branches that edges leave by, with the data of those that it has. -/
def syncConditionBranches (graph : WorkflowGraph) : WorkflowGraph :=
  { graph with nodes := graph.nodes.map (syncNode graph) }

def conditionNodeIds (nodes : List WorkflowNode) : List String :=
  (nodes.filter fun node => node.type = .condition).map (·.id)

def conditionEdgeType (conditionIds : List String) (edge : WorkflowEdge) : WorkflowEdge := { edge with
  type :=
    if edge.source ∈ conditionIds then .conditionBranch
    else if edge.type = .conditionBranch then .default else edge.type }

def normalizeConditionEdgeTypes (graph : WorkflowGraph) : WorkflowGraph :=
  { graph with edges := graph.edges.map (conditionEdgeType (conditionNodeIds graph.nodes)) }

def normalizeCanvasSize (size : Option WorkflowCanvasObjectSize) (width height : ℚ) :
    WorkflowCanvasObjectSize :=
  ⟨some ((size.bind (·.width)).getD width), some ((size.bind (·.height)).getD height)⟩

def normalizeNote (note : WorkflowCanvasStickyNote) : WorkflowCanvasStickyNote := { note with
  content := some (note.content.getD "")
  position := some (note.position.getD ⟨160, 80⟩)
  size := some (normalizeCanvasSize note.size 280 150) }

def normalizeGroup (group : WorkflowCanvasStageGroup) : WorkflowCanvasStageGroup := { group with
  title := some (if group.title.getD "" = "" then "Stage" else group.title.getD "")
  description := some (group.description.getD "")
  position := some (group.position.getD ⟨80, 120⟩)
  size := some (normalizeCanvasSize group.size 880 240) }

def normalizeWorkflowCanvas (canvas : Option WorkflowCanvasData) : Option WorkflowCanvasData :=
  match canvas with
  | none => none
  | some canvas =>
    if canvas.notes = [] ∧ canvas.groups = [] then none
    else some ⟨canvas.notes.map normalizeNote, canvas.groups.map normalizeGroup⟩

def fallbackWorkflowNodePosition (index : ℕ) : WorkflowNodePosition :=
  ⟨((120 + index % 4 * 360 : ℕ) : ℚ), ((160 + index / 4 * 190 : ℕ) : ℚ)⟩

def placeNode (node : WorkflowNode) (index : ℕ) : WorkflowNode :=
  { node with position := some (node.position.getD (fallbackWorkflowNodePosition index)) }

def portEdge (edge : WorkflowEdge) : WorkflowEdge := { edge with
  sourceHandle := some (normalizeWorkflowPortHandle edge.sourceHandle defaultSourceHandle)
  targetHandle := some (normalizeWorkflowPortHandle edge.targetHandle defaultTargetHandle) }

/-- The current version, with places and ports. -/
def migrateShape (graph : WorkflowGraph) : WorkflowGraph := { graph with
  version := workflowGraphVersion
  nodes := graph.nodes.zipIdx.map fun entry => placeNode entry.1 entry.2
  edges := graph.edges.map portEdge
  canvas := normalizeWorkflowCanvas graph.canvas }

def migrateWorkflowGraph (graph : WorkflowGraph) : WorkflowGraph :=
  normalizeWorkflowSemanticHandles
    (syncConditionBranches (normalizeConditionEdgeTypes (migrateShape graph)))

end VibeKanban.WebCore
