import VibeKanban.Lib.Text
import VibeKanban.Workflow.Planner

/-! The Condition router: reading the decision block of an agent's output, validating the
selection against the graph and writing the stored decision. -/
namespace VibeKanban.Router
open Lib Workflow

def decisionStartTag : List Char := "<workflow_router_decision>".toList

def decisionEndTag : List Char := "</workflow_router_decision>".toList

inductive RouterDecisionStatus where
  | selected | needsUser
  deriving DecidableEq, Repr

inductive RouterDecisionConfidence where
  | high | medium | low
  deriving DecidableEq, Repr

structure RouterDecision where
  schemaVersion : UInt32
  status : RouterDecisionStatus
  selectedTargetNodeIds : List String
  skippedTargetNodeIds : List String
  confidence : Option RouterDecisionConfidence
  reason : Option String
  question : Option String
  deriving DecidableEq, Repr

structure ConditionRouterCompletion where
  outputText : String
  selectedTargetNodeIds : List String
  skippedTargetNodeIds : List String
  pausePrompt : Option String
  deriving DecidableEq, Repr

namespace ConditionRouterCompletion

def autoRoute (outputText : String) (selected skipped : List String) :
    ConditionRouterCompletion := ⟨outputText, selected, skipped, none⟩

def pause (outputText pausePrompt : String) : ConditionRouterCompletion :=
  ⟨outputText, [], [], some pausePrompt⟩

def shouldPause (completion : ConditionRouterCompletion) : Bool := completion.pausePrompt.isSome

end ConditionRouterCompletion

structure ManualConditionRoute where
  outputText : String
  selectedTargetNodeIds : List String
  skippedTargetNodeIds : List String
  deriving DecidableEq, Repr

structure ValidatedSelection where
  selectedTargetNodeIds : List String
  skippedTargetNodeIds : List String
  deriving DecidableEq, Repr

/-- The text formats the router depends on: JSON values, and a decision as its typed record. -/
structure RouterCodec where
  json : JsonCodec
  decision : String → Except String RouterDecision

/-- The trimmed bodies of the decision blocks, from left to right. -/
def decisionBlocks : ℕ → List Char → Except String (List String)
  | 0, _ => .ok []
  | fuel + 1, raw =>
    match splitOnce decisionStartTag raw with
    | none => .ok []
    | some (_, rest) =>
      match splitOnce decisionEndTag rest with
      | none => .error "Router decision block is missing the closing tag"
      | some (body, rest) => do
        let blocks ← decisionBlocks fuel rest
        return String.ofList (trimChars body) :: blocks

def parseRouterDecision (decode : String → Except String RouterDecision) (rawOutput : String) :
    Except String RouterDecision := do
  match ← decisionBlocks (rawOutput.toList.length + 1) rawOutput.toList with
  | [] => .error "Router output did not contain a workflow_router_decision block"
  | [block] =>
    match decode block with
    | .error err => .error s!"Router decision JSON is invalid: {err}"
    | .ok decision =>
      if decision.schemaVersion ≠ 1 then
        .error s!"Unsupported router decision schema_version `{decision.schemaVersion}`"
      else .ok decision
  | _ => .error "Router output contained multiple workflow_router_decision blocks"

def conditionOutgoingTargetIds (graph : WorkflowGraph) (node : WorkflowNode) : List String :=
  (graph.edges.filter fun edge => edge.source == node.id).map (·.target)

def conditionRoutingMode (node : WorkflowNode) : ConditionRoutingMode :=
  node.data.routingMode.getD .single

/-- The targets must be outgoing and without repetition; `seen` holds the earlier ones. -/
def checkSelected (outgoing : List String) : List String → List String → Except String Unit
  | _, [] => .ok ()
  | seen, target :: rest =>
    if target ∈ seen then .error s!"Condition routing selected duplicate target `{target}`"
    else if target ∉ outgoing then
      .error s!"Condition routing selected non-outgoing target `{target}`"
    else checkSelected outgoing (target :: seen) rest

def validateTargetSelection (graph : WorkflowGraph) (node : WorkflowNode)
    (selected : List String) : Except String ValidatedSelection :=
  if node.kind ≠ .condition then .error s!"Workflow node `{node.id}` is not a condition"
  else if conditionOutgoingTargetIds graph node = [] then
    .error s!"Condition node `{node.id}` has no outgoing targets"
  else if selected = [] then .error "Condition routing selection cannot be empty"
  else do
    checkSelected (conditionOutgoingTargetIds graph node) [] selected
    if conditionRoutingMode node = .single ∧ selected.length ≠ 1 then
      .error "Condition is in single routing mode but selected multiple targets"
    else
      return ⟨selected, (conditionOutgoingTargetIds graph node).filter fun target =>
        !selected.contains target⟩

def validateSkippedTargets (graph : WorkflowGraph) (node : WorkflowNode) (selected : List String) :
    List String → Except String Unit
  | [] => .ok ()
  | target :: rest =>
    if target ∉ conditionOutgoingTargetIds graph node then
      .error s!"Router skipped non-outgoing target `{target}`"
    else if target ∈ selected then
      .error s!"Router both selected and skipped target `{target}`"
    else validateSkippedTargets graph node selected rest

/-- A text that is present and not blank. -/
def nonBlank (text : Option String) : Option String := text.filter fun t => !isBlank t

def validateRouterDecision (graph : WorkflowGraph) (node : WorkflowNode)
    (decision : RouterDecision) (mutationWarning : Option String) :
    Except String (RouterDecision × ValidatedSelection) :=
  match nonBlank mutationWarning with
  | some warning =>
    .error s!"Router modified the worktree; review before continuing: {warning}"
  | none =>
    if decision.status = .needsUser then
      .error ((nonBlank decision.question).getD "Router requested user input")
    else if decision.confidence ≠ some .high then .error "Router decision confidence is not high"
    else do
      let selection ← validateTargetSelection graph node decision.selectedTargetNodeIds
      validateSkippedTargets graph node selection.selectedTargetNodeIds
        decision.skippedTargetNodeIds
      return (decision, selection)

def RouterDecisionStatus.toJson : RouterDecisionStatus → Json
  | .selected => .str "selected"
  | .needsUser => .str "needs_user"

def RouterDecisionConfidence.toJson : RouterDecisionConfidence → Json
  | .high => .str "high"
  | .medium => .str "medium"
  | .low => .str "low"

def RouterDecision.toJson (decision : RouterDecision) : Json :=
  .obj [("schema_version", .num decision.schemaVersion.toNat),
    ("status", decision.status.toJson),
    ("selected_target_node_ids", .strings decision.selectedTargetNodeIds),
    ("skipped_target_node_ids", .strings decision.skippedTargetNodeIds),
    ("confidence", (decision.confidence.map (·.toJson)).getD .null),
    ("reason", .optStr decision.reason),
    ("question", .optStr decision.question)]

def routerOutputPayload (source status : String) (decision : Option RouterDecision)
    (rawOutput : String) (selected skipped : List String) (validationResult : String)
    (validationReason mutationWarning : Option String) (overrode : Bool) : Json :=
  .obj [("type", .str "condition_router_decision"), ("source", .str source),
    ("status", .str status), ("schema_version", .num 1),
    ("decision", (decision.map (·.toJson)).getD .null), ("raw_output", .str rawOutput),
    ("selected_target_node_ids", .strings selected),
    ("skipped_target_node_ids", .strings skipped),
    ("validation", .obj [("result", .str validationResult), ("reason", .optStr validationReason),
      ("mutation_warning", .optStr mutationWarning),
      ("overrode_router_mutation_warning", .bool overrode)])]

section
variable (codec : RouterCodec)

def evaluateRouterOutput (rawOutput : String) (graph : WorkflowGraph) (node : WorkflowNode)
    (mutationWarning : Option String) : ConditionRouterCompletion :=
  let parsed := parseRouterDecision codec.decision rawOutput
  match parsed.bind fun decision => validateRouterDecision graph node decision mutationWarning with
  | .ok (decision, selection) =>
    .autoRoute
      (codec.json.toString (routerOutputPayload "router" "selected" (some decision) rawOutput
        selection.selectedTargetNodeIds selection.skippedTargetNodeIds "auto_route" none
        mutationWarning false))
      selection.selectedTargetNodeIds selection.skippedTargetNodeIds
  | .error message =>
    .pause
      (codec.json.toString (routerOutputPayload "router" "awaiting_human" parsed.toOption rawOutput
        [] [] "pause" (some message) mutationWarning false))
      ((nonBlank (parsed.toOption.bind (·.question))).getD message)

def buildManualRoute (graph : WorkflowGraph) (node : WorkflowNode) (selected : List String)
    (reason : Option String) (overrode : Bool) : Except String ManualConditionRoute := do
  let selection ← validateTargetSelection graph node selected
  return ⟨codec.json.toString (routerOutputPayload "user" "selected" none ""
      selection.selectedTargetNodeIds selection.skippedTargetNodeIds "manual_route" reason none
      overrode),
    selection.selectedTargetNodeIds, selection.skippedTargetNodeIds⟩

def outputHasRouterMutationWarning (outputText : Option String) : Bool :=
  match (outputText.bind codec.json.fromStr).bind fun value =>
      (value.get? "validation").bind (·.get? "mutation_warning") with
  | some warning => !warning.isNull
  | none => false

end

end VibeKanban.Router
