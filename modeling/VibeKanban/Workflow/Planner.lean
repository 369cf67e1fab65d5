import VibeKanban.Workflow.Graph

/-! The ready-node planner: which pending executions of a run may be dispatched, and how many
executions of a node its upstream successes ask for. -/
namespace VibeKanban.Workflow
open Lib

inductive NodeExecutionStatus where
  | pending | running | awaitingHuman | awaitingArena | cancelling
  | succeeded | failed | cancelled | skipped
  deriving DecidableEq, Repr

structure NodeExecutionSnapshot where
  nodeId : String
  iteration : ℤ
  status : NodeExecutionStatus
  outputText : Option String
  errorText : Option String
  deriving DecidableEq, Repr

structure RunSnapshot where
  runId : ℕ
  nodes : List NodeExecutionSnapshot
  deriving DecidableEq, Repr

structure ReadyNode where
  nodeId : String
  iteration : ℤ
  kind : WorkflowNodeKind
  writesMainWorktree : Bool
  deriving DecidableEq, Repr

inductive PlannerWarning where
  | serializedMainWorktreeAgents (nodeIds : List String)
  deriving DecidableEq, Repr

structure ReadyPlan where
  readyNodes : List ReadyNode
  warnings : List PlannerWarning
  deriving DecidableEq, Repr

def jsonStringArrayContains (value : Option Json) (needle : String) : Bool :=
  match value.bind Json.asArray? with
  | some items => items.any fun item => item.asStr? == some needle
  | none => false

section
variable (fromStr : String → Option Json)

/-- The planner's reading of a stored router decision: the target is listed at the top level
or inside the recorded decision. -/
def conditionOutputSelectsTarget (outputText : Option String) (targetNodeId : String) : Bool :=
  match outputText with
  | none => false
  | some text =>
    match fromStr text with
    | none => false
    | some value =>
      jsonStringArrayContains (value.get? "selected_target_node_ids") targetNodeId ||
        jsonStringArrayContains
          ((value.get? "decision").bind (·.get? "selected_target_node_ids")) targetNodeId

def executionTriggersEdge (graph : WorkflowGraph) (edge : WorkflowEdge)
    (execution : NodeExecutionSnapshot) : Bool :=
  match graph.nodes.find? (fun node => node.id == edge.source) with
  | none => false
  | some sourceNode =>
    if sourceNode.kind ≠ .condition then true
    else conditionOutputSelectsTarget fromStr execution.outputText edge.target

def succeededTriggerCountForEdge (graph : WorkflowGraph) (edge : WorkflowEdge)
    (executions : List NodeExecutionSnapshot) : ℕ :=
  executions.countP fun execution =>
    decide (execution.status = .succeeded) && execution.nodeId == edge.source &&
      executionTriggersEdge fromStr graph edge execution

def incomingEdges (graph : WorkflowGraph) (nodeId : String) : List WorkflowEdge :=
  graph.edges.filter fun edge => edge.target == nodeId

def executionIsReady (node : WorkflowNode) (iteration : ℤ) (incoming : List WorkflowEdge)
    (graph : WorkflowGraph) (executions : List NodeExecutionSnapshot) : Bool :=
  if incoming.isEmpty then decide (node.kind = .start) && iteration == 0
  else incoming.any fun edge =>
    decide (0 < succeededTriggerCountForEdge fromStr graph edge executions)

/-- The stored executions, and a pending one for every node that has none. -/
def executionSnapshots (graph : WorkflowGraph) (snapshot : RunSnapshot) :
    List NodeExecutionSnapshot :=
  snapshot.nodes ++
    (graph.nodes.filter fun node => !(snapshot.nodes.any fun e => e.nodeId == node.id)).map
      fun node => ⟨node.id, 0, .pending, none, none⟩

/-- How many executions of the target the succeeded executions of its sources ask for. -/
def triggeredExecutionCount (graph : WorkflowGraph) (snapshot : RunSnapshot)
    (targetNodeId : String) : ℕ :=
  ((incomingEdges graph targetNodeId).map fun edge =>
    succeededTriggerCountForEdge fromStr graph edge (executionSnapshots graph snapshot)).sum

def readyNode (node : WorkflowNode) (iteration : ℤ) : ReadyNode :=
  ⟨node.id, iteration, node.kind, decide (node.kind = .agent)⟩

def planReadyNodes (graph : WorkflowGraph) (snapshot : RunSnapshot) : ReadyPlan :=
  let executions := executionSnapshots graph snapshot
  let readyNodes := (executions.filter fun execution =>
      decide (execution.status = .pending)).filterMap fun execution =>
    match graph.nodes.reverse.find? (fun node => node.id == execution.nodeId) with
    | none => none
    | some node =>
      if executionIsReady fromStr node execution.iteration (incomingEdges graph node.id) graph
          executions then some (readyNode node execution.iteration)
      else none
  ⟨readyNodes, []⟩

end

end VibeKanban.Workflow
