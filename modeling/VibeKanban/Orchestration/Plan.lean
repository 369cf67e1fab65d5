import VibeKanban.Agent.Event

/-! The frozen plan of an orchestration run, the evaluation of joins and the projection of node
statuses onto the run. -/
namespace VibeKanban.Orchestration
open VibeKanban.Runtime (AgentRunStatus)

inductive OrchestrationRunStatus where
  | pending | running | waitingForInput | waitingForApproval | cancelling
  | succeeded | failed | cancelled
  deriving DecidableEq, Repr

def OrchestrationRunStatus.isTerminal : OrchestrationRunStatus → Bool
  | succeeded | failed | cancelled => true
  | _ => false

/-- The run takes no new dispatches. -/
def OrchestrationRunStatus.stopped (status : OrchestrationRunStatus) : Bool :=
  decide (status = .cancelling) || status.isTerminal

inductive OrchestrationNodeStatus where
  | pending | ready | running | awaitingInput | awaitingApproval | cancelling
  | succeeded | failed | cancelled
  deriving DecidableEq, Repr

def isTerminalNode : OrchestrationNodeStatus → Bool
  | .succeeded | .failed | .cancelled => true
  | _ => false

inductive OrchestrationJoinPolicy where
  | all | any | each
  deriving DecidableEq, Repr

inductive OrchestrationFailurePolicy where
  | failFast | allowPartial
  deriving DecidableEq, Repr

inductive RemainingUpstreamsPolicy where
  | continue | cancelRemaining
  deriving DecidableEq, Repr

inductive EachDownstreamExecution where
  | parallel | serial
  deriving DecidableEq, Repr

structure OrchestrationPlanNode where
  nodeKey : String
  stableOrder : ℕ
  dependencies : List String
  join : OrchestrationJoinPolicy
  failurePolicy : OrchestrationFailurePolicy
  remainingUpstreams : RemainingUpstreamsPolicy
  eachDownstreamExecution : EachDownstreamExecution
  deriving DecidableEq, Repr

inductive JoinDecision where
  | waiting | ready | readyAndCancelRemaining | failed
  deriving DecidableEq, Repr

def evaluateJoin (policy : OrchestrationJoinPolicy) (failurePolicy : OrchestrationFailurePolicy)
    (remaining : RemainingUpstreamsPolicy) (statuses : List OrchestrationNodeStatus) :
    JoinDecision :=
  if statuses.isEmpty then .waiting else
  let successful := statuses.countP (· = .succeeded)
  let terminal := statuses.all isTerminalNode
  let hasFailure := statuses.any fun status => status = .failed || status = .cancelled
  match policy with
  | .all =>
    if failurePolicy = .failFast && hasFailure then .failed
    else if !terminal then .waiting
    else if successful = statuses.length then .ready
    else if failurePolicy = .allowPartial && 0 < successful then .ready
    else .failed
  | .any =>
    if 0 < successful then
      if remaining = .cancelRemaining then .readyAndCancelRemaining else .ready
    else if terminal then .failed
    else .waiting
  | .each =>
    if failurePolicy = .failFast && hasFailure then .failed
    else if 0 < successful then .ready
    else if terminal then .failed
    else .waiting

def nodeStatusFromAgent : AgentRunStatus → OrchestrationNodeStatus
  | .pending | .starting | .running => .running
  | .awaitingInput => .awaitingInput
  | .awaitingApproval => .awaitingApproval
  | .cancelling => .cancelling
  | .succeeded => .succeeded
  | .cancelled => .cancelled
  | .failed | .crashed | .auditFailed => .failed

def projectRunStatus (current : OrchestrationRunStatus)
    (facts : List (OrchestrationNodeStatus × OrchestrationFailurePolicy)) :
    OrchestrationRunStatus :=
  let has (status : OrchestrationNodeStatus) := facts.any fun fact => fact.1 = status
  let allTerminal := facts.all fun fact => isTerminalNode fact.1
  if facts.isEmpty then current
  else if current.isTerminal then current
  else if current = .cancelling then if allTerminal then .cancelled else .cancelling
  else if allTerminal then
    if facts.any fun (status, policy) =>
        (status = .failed || status = .cancelled) && policy = .failFast then .failed
    else if has .succeeded then .succeeded
    else .failed
  else if has .ready || has .running then .running
  else if has .awaitingApproval then .waitingForApproval
  else if has .awaitingInput then .waitingForInput
  else .running

end VibeKanban.Orchestration
