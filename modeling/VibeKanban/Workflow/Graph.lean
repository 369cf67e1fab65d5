import VibeKanban.Lib.Json

/-! The workflow graph as it is stored and accepted. -/
namespace VibeKanban.Workflow
open Lib

inductive WorkflowNodeKind where
  | start | «end» | agent | condition | humanGate | transform | arena
  deriving DecidableEq, Repr

inductive ConditionRoutingMode where
  | single | multi
  deriving DecidableEq, Repr

structure ConditionBranch where
  targetNodeId : Option String
  condition : Option String
  deriving DecidableEq, Repr

structure WorkflowNodeData where
  routingMode : Option ConditionRoutingMode
  branches : Option (List ConditionBranch)
  deriving DecidableEq, Repr

structure WorkflowNode where
  id : String
  kind : WorkflowNodeKind
  data : WorkflowNodeData
  deriving DecidableEq, Repr

structure WorkflowEdge where
  id : String
  source : String
  target : String
  deriving DecidableEq, Repr

structure WorkflowGraph where
  version : ℕ
  nodes : List WorkflowNode
  edges : List WorkflowEdge
  routerExecutorConfig : Option Json

namespace WorkflowGraph

def nodeIds (graph : WorkflowGraph) : List String := graph.nodes.map (·.id)

/-- The edge relation on node ids. -/
def Edge (graph : WorkflowGraph) (a b : String) : Prop :=
  ∃ e ∈ graph.edges, e.source = a ∧ e.target = b

end WorkflowGraph

end VibeKanban.Workflow
