import Mathlib.Data.String.Basic
import VibeKanban.Lib.Saturation
import VibeKanban.Workflow.Planner

/-! Planning a new delivery over a settled run: which nodes run again, which results are
reused and which branches stay skipped. -/
namespace VibeKanban.Workflow
open Lib

structure ReworkSourceExecution where
  executionId : String
  nodeId : String
  iteration : ℤ
  status : NodeExecutionStatus
  outputText : Option String
  deriving DecidableEq, Repr

structure ReuseBinding where
  nodeId : String
  iteration : ℤ
  sourceExecutionId : String
  deriving DecidableEq, Repr

/-- The two id sets are ordered lists. -/
structure ReworkPlan where
  affectedNodeIds : List String
  reuse : List ReuseBinding
  skippedNodeIds : List String
  deriving DecidableEq, Repr

/-- Both closures of the planner are the same loop; they differ in the edges they follow. -/
def closure (graph : WorkflowGraph) (follows : WorkflowEdge → Bool) (nodes : List String) :
    List String :=
  saturate graph.edges (·.source) (·.target) follows (graph.edges.length + 1) nodes

def downstreamClosure (graph : WorkflowGraph) (nodes : List String) : List String :=
  closure graph (fun _ => true) nodes

section
variable (fromStr : String → Option Json)

/-- A record of the edge's source that succeeded and chose the edge's target. -/
def recordSelects (source : List ReworkSourceExecution) (edge : WorkflowEdge) : Bool :=
  source.any fun record =>
    record.nodeId == edge.source && decide (record.status = .succeeded) &&
      conditionOutputSelectsTarget fromStr record.outputText edge.target

def isCondition (graph : WorkflowGraph) (nodeId : String) : Bool :=
  graph.nodes.any fun node => node.id == nodeId && decide (node.kind = .condition)

def permittedNodes (graph : WorkflowGraph) (affected : List String)
    (source : List ReworkSourceExecution) : List String :=
  closure graph
    (fun edge => !isCondition graph edge.source || affected.contains edge.source ||
      recordSelects fromStr source edge)
    (ordered ((graph.nodes.filter fun node => decide (node.kind = .start)).map (·.id)))

def ReworkSourceExecution.binding (record : ReworkSourceExecution) : ReuseBinding :=
  ⟨record.nodeId, record.iteration, record.executionId⟩

def succeededRecords (source : List ReworkSourceExecution) (id : String) :
    List ReworkSourceExecution :=
  source.filter fun record => record.nodeId == id && decide (record.status = .succeeded)

/-- At least one success, and nothing failed, cancelled or still pending. -/
def completeSuccess (source : List ReworkSourceExecution) (id : String) : Bool :=
  !(succeededRecords source id).isEmpty &&
    (source.filter fun record => record.nodeId == id).all fun record =>
      decide (record.status = .succeeded ∨ record.status = .skipped)

/-- The loop over the unaffected nodes, in order. -/
def reuseNodes (permitted : List String) (source : List ReworkSourceExecution) :
    List String → Except String (List ReuseBinding × List String)
  | [] => .ok ([], [])
  | id :: rest =>
    if !permitted.contains id then do
      let (reuse, skipped) ← reuseNodes permitted source rest
      return (reuse, id :: skipped)
    else if !completeSuccess source id then
      .error (s!"Cannot reuse Node `{id}`: the settled source has no complete successful input; " ++
        "choose an earlier rework Node")
    else do
      let (reuse, skipped) ← reuseNodes permitted source rest
      return ((succeededRecords source id).map (·.binding) ++ reuse, skipped)

/-- The affected nodes of a request, or its refusal; `none` asks for every node. -/
def affectedNodes (graph : WorkflowGraph) (roots : Option (List String)) :
    Except String (List String) :=
  let all := ordered graph.nodeIds
  match roots with
  | none => .ok all
  | some roots =>
    if roots.isEmpty || roots.dedup.length != roots.length then
      .error "Partial rework requires distinct, non-empty Node IDs"
    else match roots.find? fun id => !all.contains id with
      | some id => .error s!"Node `{id}` is not in the frozen workflow"
      | none => .ok (downstreamClosure graph (ordered roots))

def planRework (graph : WorkflowGraph) (roots : Option (List String))
    (source : List ReworkSourceExecution) : Except String ReworkPlan := do
  let all := ordered graph.nodeIds
  let affected ← affectedNodes graph roots
  let permitted := permittedNodes fromStr graph affected source
  match (roots.getD []).find? fun id => !permitted.contains id with
  | some root =>
    .error (s!"Node `{root}` is outside the recorded Condition route; " ++
      "include an earlier Condition in the rework scope")
  | none => do
    let (reuse, skipped) ← reuseNodes permitted source (all.filter fun id => !affected.contains id)
    return ⟨affected, reuse, skipped⟩

end

end VibeKanban.Workflow
