import VibeKanban.Workflow.Graph

/-! The handlers of the nodes that need no executor. -/
namespace VibeKanban.Workflow

inductive NodeHandlerStatus where
  | succeeded | awaitingHuman | awaitingArena
  deriving DecidableEq, Repr

structure NodeHandlerContext where
  runInputText : String
  upstreamOutputs : List String
  deriving DecidableEq, Repr

/-- The upstream outputs, separated by blank lines; the run input where there are none. -/
def NodeHandlerContext.upstreamText (context : NodeHandlerContext) : String :=
  if context.upstreamOutputs.isEmpty then context.runInputText
  else "\n\n".intercalate context.upstreamOutputs

structure NodeHandlerOutcome where
  status : NodeHandlerStatus
  outputText : Option String
  skippedTargetNodeIds : List String
  deriving DecidableEq, Repr

namespace NodeHandlerOutcome

def succeeded (outputText : String) : NodeHandlerOutcome := ⟨.succeeded, some outputText, []⟩

def waiting (status : NodeHandlerStatus) : NodeHandlerOutcome := ⟨status, none, []⟩

end NodeHandlerOutcome

/-- `applyTransform` is the text transformation of a Transform node. -/
def handlePureNode (applyTransform : WorkflowNode → String → Except String String)
    (node : WorkflowNode) (context : NodeHandlerContext) : Except String NodeHandlerOutcome :=
  match node.kind with
  | .start => .ok (.succeeded context.runInputText)
  | .end => .ok (.succeeded context.upstreamText)
  | .condition =>
    .error "condition nodes require the workflow condition router and are not pure handlers"
  | .transform => (applyTransform node context.upstreamText).map .succeeded
  | .humanGate => .ok (.waiting .awaitingHuman)
  | .arena => .ok (.waiting .awaitingArena)
  | .agent => .error "agent nodes require an executor port and are not pure handlers"

end VibeKanban.Workflow
