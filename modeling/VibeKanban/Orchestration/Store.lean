import VibeKanban.Lib.Table
import VibeKanban.Orchestration.Plan

/-! The tables of one orchestration run and what each SQL statement and transaction does to them.
Times are milliseconds. -/
namespace VibeKanban.Orchestration
open Lib
open Agent (AgentEventPayload)
open VibeKanban.Runtime (AgentRunStatus)

/-- The stable identity of a node execution is a hash of the run, the key and the iteration; the
hashed values stand for it. -/
structure NodeExecutionId where
  nodeKey : String
  iteration : ℕ
  deriving DecidableEq, Repr

/-- The formatted keys of the service apart from those of its callers. -/
inductive IdempotencyKey where
  | caller (key : String)
  | cancel (node : NodeExecutionId)
  | cancelRemaining (join node : NodeExecutionId)
  deriving DecidableEq, Repr

inductive CommandId where
  | caller (id : ℕ)
  | cancel (node : NodeExecutionId)
  | cancelRemaining (join node : NodeExecutionId)
  deriving DecidableEq, Repr

/-- `create` holds the run of its request and whether the attempt is valid for it. -/
inductive AgentRunPortCommand where
  | create (requestRun : ℕ) (request : String) (attemptValid : Bool)
  | cancel (reason : String)
  | submitInput (inputId content : String)
  | resolveApproval (approvalId : String) (approved : Bool) (reason : Option String)
  | retry (mode : String) (runAttemptId : ℕ)
  deriving DecidableEq, Repr

def AgentRunPortCommand.isCreate : AgentRunPortCommand → Bool
  | create .. => true
  | _ => false

/-- A command that starts an AgentRun. -/
def AgentRunPortCommand.launches : AgentRunPortCommand → Bool
  | create .. | retry .. => true
  | _ => false

structure AgentRunPortCommandEnvelope where
  commandId : CommandId
  idempotencyKey : IdempotencyKey
  agentRunId : ℕ
  node : NodeExecutionId
  createdAt : ℕ
  command : AgentRunPortCommand
  deriving DecidableEq, Repr

/-- The run that the request of a creation names. -/
def AgentRunPortCommandEnvelope.requestRun (envelope : AgentRunPortCommandEnvelope) : ℕ :=
  match envelope.command with
  | .create requestRun .. => requestRun
  | _ => envelope.agentRunId

inductive OrchestrationEventPayload where
  | lifecycleChanged (status : OrchestrationRunStatus)
  | nodeStatusChanged (node : NodeExecutionId) (status : OrchestrationNodeStatus)
  | agentRunLinked (node : NodeExecutionId) (agentRunId : ℕ)
  | joinDecided (node : NodeExecutionId) (policy : OrchestrationJoinPolicy)
      (consumed : List NodeExecutionId)
  | commandQueued (commandId : CommandId) (key : IdempotencyKey)
  | projectionDegraded (reason : String)
  | unknown (eventType : String) (payload : Json)
  deriving DecidableEq, Repr

/-- A random identity, or the stable one of a join decision. -/
inductive EventId where
  | fresh (id : ℕ)
  | joinDecision (join source : NodeExecutionId)
  deriving DecidableEq, Repr

structure OrchestrationEventEnvelope where
  eventId : EventId
  sequence : ℕ
  timestamp : ℕ
  payload : OrchestrationEventPayload
  deriving DecidableEq, Repr

structure OrchestrationState where
  status : OrchestrationRunStatus
  degraded : Bool
  lastEventSequence : ℕ
  lastEventId : Option EventId
  unknownEventCount : ℕ
  deriving DecidableEq, Repr

structure NodeExecution where
  id : NodeExecutionId
  stableOrder : ℕ
  status : OrchestrationNodeStatus
  deriving DecidableEq, Repr

/-- The primary key is derived from the node. -/
structure AgentRunLink where
  node : NodeExecutionId
  agentRunId : ℕ
  dispatchKey : IdempotencyKey
  deriving DecidableEq, Repr

inductive DeliveryStatus where
  | pending | delivering | delivered | failed
  deriving DecidableEq, Repr

inductive Entity where
  | event | eventSequence | nodeExecution | agentRunLink | outboxCommand | sourceConsumption | lease
  deriving DecidableEq, Repr

inductive OrchestrationPersistenceError where
  | database
  | invalidCommand
  | missingNodeIdentity
  | idempotencyConflict (entity : Entity)
  | invalidStreamPosition
  | sequenceConflict (received lastApplied : ℕ)
  | inboxNodeMismatch
  | effectRunMismatch
  | commandAgentRunMismatch
  deriving DecidableEq, Repr

/-- `rejectedLink` is a rejection with the text of the error. -/
inductive AgentRunPortError where
  | notFound
  | unavailable (message : String)
  | rejected (message : String)
  | rejectedLink (error : OrchestrationPersistenceError)
  deriving DecidableEq, Repr

structure OutboxRow where
  id : ℕ
  command : AgentRunPortCommandEnvelope
  status : DeliveryStatus
  attempts : ℕ
  availableAt : ℕ
  createdAt : ℕ
  updatedAt : ℕ
  lastError : Option AgentRunPortError
  deriving DecidableEq, Repr

structure AgentEventEnvelope where
  eventId : ℕ
  agentRunId : ℕ
  sequence : ℕ
  node : Option NodeExecutionId
  payload : AgentEventPayload
  deriving DecidableEq, Repr

inductive ConsumptionStatus where
  | pending | processing | consumed
  deriving DecidableEq, Repr

structure InboxRow where
  id : ℕ
  event : AgentEventEnvelope
  status : ConsumptionStatus
  receivedAt : ℕ
  deriving DecidableEq, Repr

structure Consumption where
  join : NodeExecutionId
  source : NodeExecutionId
  agentRunId : ℕ
  eventId : ℕ
  target : Option NodeExecutionId
  deriving DecidableEq, Repr

structure Lease where
  owner : String
  fencingToken : ℕ
  expiresAt : ℕ
  deriving DecidableEq, Repr

structure Store where
  plan : List OrchestrationPlanNode
  state : OrchestrationState
  events : List OrchestrationEventEnvelope
  nodes : List NodeExecution
  links : List AgentRunLink
  outbox : List OutboxRow
  inbox : List InboxRow
  consumptions : List Consumption
  lease : Option Lease
  agents : ℕ → Option AgentRunStatus
  clock : ℕ
  nextId : ℕ

def leaseTtl : ℕ := 30000

def redeliveryAfter : ℕ := 30000

inductive OrchestrationReducerApply where
  | applied | appliedDegraded | duplicate | ignoredTerminalRegression
  deriving DecidableEq, Repr

/-- What the payload alone does to the state. -/
def applyPayload (state : OrchestrationState) :
    OrchestrationEventPayload → OrchestrationState × OrchestrationReducerApply
  | .lifecycleChanged status =>
    if state.status.isTerminal && !status.isTerminal then (state, .ignoredTerminalRegression)
    else ({ state with status := status }, .applied)
  | .projectionDegraded _ => ({ state with degraded := true }, .appliedDegraded)
  | .unknown .. =>
    ({ state with degraded := true, unknownEventCount := state.unknownEventCount + 1 },
      .appliedDegraded)
  | _ => (state, .applied)

def reduceOrchestrationEvent (state : OrchestrationState) (event : OrchestrationEventEnvelope) :
    Except OrchestrationPersistenceError (OrchestrationState × OrchestrationReducerApply) :=
  if event.sequence = 0 then .error .invalidStreamPosition
  else if event.sequence ≤ state.lastEventSequence then
    if event.sequence = state.lastEventSequence && state.lastEventId = some event.eventId then
      .ok (state, .duplicate)
    else .error (.sequenceConflict event.sequence state.lastEventSequence)
  else
    let hadGap := decide (event.sequence ≠ state.lastEventSequence + 1)
    let (next, apply) := applyPayload { state with degraded := state.degraded || hadGap }
      event.payload
    let next := { next with lastEventSequence := event.sequence, lastEventId := some event.eventId }
    .ok (next, if next.degraded then
      match apply with
      | .duplicate => .duplicate
      | .ignoredTerminalRegression => .ignoredTerminalRegression
      | _ => .appliedDegraded
    else apply)

def Store.appendAndProject (x : Store) (event : OrchestrationEventEnvelope) :
    Except OrchestrationPersistenceError (OrchestrationReducerApply × Store) :=
  match x.events.find? (·.eventId = event.eventId) with
  | some existing =>
    if existing = event then .ok (.duplicate, x) else .error (.idempotencyConflict .event)
  | none =>
    match x.events.find? (·.sequence = event.sequence) with
    | some existing =>
      if existing = event then .ok (.duplicate, x) else .error (.idempotencyConflict .eventSequence)
    | none =>
      match reduceOrchestrationEvent x.state event with
      | .error error => .error error
      | .ok (state, apply) =>
        .ok (apply, { x with
          state := { state with lastEventSequence := event.sequence }
          events := event :: x.events })

def Store.node? (x : Store) (id : NodeExecutionId) : Option NodeExecution :=
  x.nodes.find? (·.id = id)

/-- Insert the row unless the run has one with this key and iteration. -/
def Store.persistNode (x : Store) (id : NodeExecutionId) (stableOrder : ℕ) : Store :=
  if (x.node? id).isSome then x else { x with nodes := x.nodes ++ [⟨id, stableOrder, .pending⟩] }

def Store.hasLink (x : Store) (node : NodeExecutionId) : Bool := x.links.any (·.node = node)

/-- Set the status of the rows that meet a condition. -/
def Store.setNodes (x : Store) (when : NodeExecution → Bool) (status : OrchestrationNodeStatus) :
    Store :=
  { x with nodes := updateWhere when (fun row => { row with status := status }) x.nodes }

def Store.undispatched (x : Store) (row : NodeExecution) : Bool :=
  (decide (row.status = .pending) || decide (row.status = .ready)) && !x.hasLink row.id

def Store.linkedToCancel (x : Store) (row : NodeExecution) : Bool :=
  !isTerminalNode row.status && decide (row.status ≠ .cancelling) && x.hasLink row.id

/-- The order of `stable_order, iteration`. -/
def NodeExecution.before (a b : NodeExecution) : Bool :=
  decide (a.stableOrder < b.stableOrder) ||
    decide (a.stableOrder = b.stableOrder) && decide (a.id.iteration ≤ b.id.iteration)

/-- The linked executions that are not terminal, in stable order, with their statuses. -/
def Store.activeRows (x : Store) : List (NodeExecutionId × ℕ × OrchestrationNodeStatus) :=
  ((x.nodes.filter fun row => !isTerminalNode row.status).mergeSort NodeExecution.before).flatMap
    fun row => (x.links.filter (·.node = row.id)).map fun link =>
      (row.id, link.agentRunId, row.status)

def Store.activeChildren (x : Store) : List (NodeExecutionId × ℕ) :=
  x.activeRows.map fun (node, run, _) => (node, run)

/-- Insert a link. A repeated dispatch key inserts nothing; another link of the node or of the
AgentRun violates a constraint. -/
def Store.insertLink (x : Store) (link : AgentRunLink) :
    Except OrchestrationPersistenceError (Unit × Store) :=
  if x.links.any (·.dispatchKey = link.dispatchKey) then .ok ((), x)
  else if x.links.any fun old => old.node = link.node || old.agentRunId = link.agentRunId then
    .error .database
  else .ok ((), { x with links := x.links ++ [link] })

def AgentRunPortCommandEnvelope.valid (envelope : AgentRunPortCommandEnvelope) : Bool :=
  match envelope.command with
  | .create requestRun _ attemptValid => attemptValid && decide (requestRun = envelope.agentRunId)
  | _ => true

/-- The node is linked to another run, or to none although the command is for its run. -/
def Store.linkMismatch (x : Store) (command : AgentRunPortCommandEnvelope) : Bool :=
  let linked := (x.links.find? (·.node = command.node)).map (·.agentRunId)
  linked.any (· ≠ command.agentRunId) ||
    (!command.command.isCreate && decide (linked ≠ some command.agentRunId))

/-- Insert the row unless its key is there with the same command. -/
def Store.insertOutbox (x : Store) (id : ℕ) (command : AgentRunPortCommandEnvelope) :
    Except OrchestrationPersistenceError ((ℕ × Bool) × Store) :=
  match x.outbox.find? (·.command.idempotencyKey = command.idempotencyKey) with
  | some existing =>
    if existing.command = command then .ok ((existing.id, false), x)
    else .error (.idempotencyConflict .outboxCommand)
  | none =>
    if x.outbox.any fun row => row.command.commandId = command.commandId || row.id = id then
      .error .database
    else .ok ((id, true), { x with
      outbox := x.outbox ++ [⟨id, command, .pending, 0, x.clock, x.clock, x.clock, none⟩] })

/-- The transaction that queues a command: the row's identity and whether it was inserted. -/
def Store.enqueueOutbox (x : Store) (id : ℕ) (command : AgentRunPortCommandEnvelope) :
    Except OrchestrationPersistenceError ((ℕ × Bool) × Store) :=
  if !command.valid then .error .invalidCommand
  else if (x.node? command.node).isNone then .error .missingNodeIdentity
  else if x.linkMismatch command then .error .commandAgentRunMismatch
  else x.insertOutbox id command

def Store.setOutbox (x : Store) (when : OutboxRow → Bool) (change : OutboxRow → OutboxRow) : Store :=
  { x with outbox := updateWhere when change x.outbox }

/-- Deliveries that were left under way become eligible again. -/
def Store.reclaimDeliveries (x : Store) (now after : ℕ) : Store :=
  x.setOutbox (fun row => decide (row.status = .delivering) && decide (row.updatedAt + after ≤ now))
    fun row => { row with status := .pending, updatedAt := now }

def OutboxRow.claimable (now : ℕ) (row : OutboxRow) : Bool :=
  (decide (row.status = .pending) || decide (row.status = .failed)) && decide (row.availableAt ≤ now)

/-- The order of `available_at, created_at`. -/
def OutboxRow.before (a b : OutboxRow) : Bool :=
  decide (a.availableAt < b.availableAt) ||
    decide (a.availableAt = b.availableAt) && decide (a.createdAt ≤ b.createdAt)

def OutboxRow.claimed (now : ℕ) (row : OutboxRow) : OutboxRow :=
  { row with status := .delivering, attempts := row.attempts + 1, updatedAt := now }

def Store.claimOutboxRow (x : Store) (now id : ℕ) : Store :=
  x.setOutbox (fun row => decide (row.id = id)) (·.claimed now)

def Store.setInbox (x : Store) (when : InboxRow → Bool) (status : ConsumptionStatus) : Store :=
  { x with inbox := updateWhere when (fun row => { row with status := status }) x.inbox }

/-- The order of `received_at, id`. -/
def InboxRow.before (a b : InboxRow) : Bool :=
  decide (a.receivedAt < b.receivedAt) ||
    decide (a.receivedAt = b.receivedAt) && decide (a.id ≤ b.id)

/-- The pending row received first. -/
def nextPending (inbox : List InboxRow) : Option InboxRow :=
  firstRow InboxRow.before (inbox.filter (·.status = .pending))

def Store.claimInbox (x : Store) : Option InboxRow × Store :=
  match nextPending x.inbox with
  | none => (none, x)
  | some row =>
    (some { row with status := .processing }, x.setInbox (fun r => decide (r.id = row.id)) .processing)

def Store.markConsumed (x : Store) (id : ℕ) : Store :=
  x.setInbox (fun row => decide (row.id = id) && decide (row.status ≠ .consumed)) .consumed

def Store.releaseClaim (x : Store) (id : ℕ) : Store :=
  x.setInbox (fun row => decide (row.id = id) && decide (row.status = .processing)) .pending

/-- The foreign keys of a consumption. -/
def Store.references (x : Store) (row : Consumption) : Bool :=
  (x.node? row.join).isSome && (x.node? row.source).isSome &&
    (x.links.any fun link => link.node = row.source && link.agentRunId = row.agentRunId) &&
    row.target.all fun target => (x.node? target).isSome

def Store.recordConsumption (x : Store) (inboxId : ℕ) (join source : NodeExecutionId)
    (target : Option NodeExecutionId) : Except OrchestrationPersistenceError (Bool × Store) :=
  match x.inbox.find? (·.id = inboxId) with
  | none => .error .missingNodeIdentity
  | some inbox =>
    if inbox.event.node ≠ some source then .error .inboxNodeMismatch
    else
      let row : Consumption := ⟨join, source, inbox.event.agentRunId, inbox.event.eventId, target⟩
      match x.consumptions.find? fun old => old.join = join && old.source = source with
      | some existing =>
        if existing = row then .ok (false, x.markConsumed inboxId)
        else .error (.idempotencyConflict .sourceConsumption)
      | none =>
        if !x.references row then .error .database
        else .ok (true, { x with consumptions := x.consumptions ++ [row] }.markConsumed inboxId)

def Store.serialEach (x : Store) (join : NodeExecutionId) : Bool :=
  x.plan.any fun node => node.nodeKey = join.nodeKey && node.join = .each &&
    node.eachDownstreamExecution = .serial

/-- The end of time a queued serial command waits for. -/
def never : ℕ := 253402300799000

/-- The command behind a consumption. That of a serial queue waits until its target is promoted. -/
def Store.enqueueFollowUp (x : Store) (join : NodeExecutionId) (target : Option NodeExecutionId) :
    Option (ℕ × AgentRunPortCommandEnvelope) → Except OrchestrationPersistenceError Store
  | none => .ok x
  | some (outboxId, command) =>
    match x.enqueueOutbox outboxId command with
    | .error error => .error error
    | .ok (_, y) =>
      if y.serialEach join && target.any (fun id => (y.node? id).any (·.status = .pending)) then
        .ok (y.setOutbox (fun row => decide (row.id = outboxId) && decide (row.status = .pending))
          fun row => { row with availableAt := never })
      else .ok y

/-- One transaction: the consumption, the event of the join decision and the command that
follows. -/
def Store.consumeWithEffects (x : Store) (inboxId : ℕ) (join source : NodeExecutionId)
    (target : Option NodeExecutionId) (event : OrchestrationEventEnvelope)
    (followUp : Option (ℕ × AgentRunPortCommandEnvelope)) :
    Except OrchestrationPersistenceError (Bool × Store) :=
  if followUp.any fun (_, command) => some command.node ≠ target then .error .effectRunMismatch
  else
    match x.recordConsumption inboxId join source target with
    | .error error => .error error
    | .ok (false, y) => .ok (false, y)
    | .ok (true, y) =>
      match y.appendAndProject event with
      | .error error => .error error
      | .ok (_, z) =>
        match z.enqueueFollowUp join target followUp with
        | .error error => .error error
        | .ok w => .ok (true, w)

/-- A target that occupies its serial queue. -/
def OrchestrationNodeStatus.isActive : OrchestrationNodeStatus → Bool
  | ready | running | awaitingInput | awaitingApproval | cancelling => true
  | _ => false

def Store.activeTarget (x : Store) (join : NodeExecutionId) : Bool :=
  x.consumptions.any fun row => decide (row.join = join) &&
    row.target.any fun id => (x.node? id).any (·.status.isActive)

/-- A consumption in the queue of its join, with what it is ordered by. -/
structure SerialEachQueueRow where
  consumption : Consumption
  target : NodeExecutionId
  sourceOrder : ℕ
  sourceIteration : ℕ
  sequence : ℕ
  deriving DecidableEq, Repr

/-- What stands for the order and the iteration of a source that is missing. -/
def noSource : ℕ := 9223372036854775807

/-- The consumptions of a join whose targets are pending. -/
def Store.serialQueue (x : Store) (join : NodeExecutionId) : List SerialEachQueueRow :=
  (x.consumptions.filter (·.join = join)).flatMap fun row =>
    match row.target with
    | none => []
    | some id =>
      if (x.node? id).any (·.status = .pending) then
        (x.inbox.filter (·.event.eventId = row.eventId)).map fun inbox =>
          ⟨row, id, ((x.node? row.source).map (·.stableOrder)).getD noSource,
            ((x.node? row.source).map (·.id.iteration)).getD noSource, inbox.event.sequence⟩
      else []

/-- The order of source order, source iteration, source sequence and event. -/
def SerialEachQueueRow.before (a b : SerialEachQueueRow) : Bool :=
  decide (a.sourceOrder < b.sourceOrder) || decide (a.sourceOrder = b.sourceOrder) &&
    (decide (a.sourceIteration < b.sourceIteration) ||
      decide (a.sourceIteration = b.sourceIteration) && (decide (a.sequence < b.sequence) ||
        decide (a.sequence = b.sequence) &&
          decide (a.consumption.eventId ≤ b.consumption.eventId)))

/-- Make a queued target ready and release its commands. -/
def Store.promote (x : Store) (target : NodeExecutionId) (now : ℕ) : Store :=
  (x.setNodes (fun row => decide (row.id = target) && decide (row.status = .pending)) .ready).setOutbox
    (fun row => decide (row.command.node = target) &&
      (decide (row.status = .pending) || decide (row.status = .failed)))
    fun row => { row with availableAt := now }

/-- The transaction that promotes the head of a serial queue unless a target is active. -/
def Store.promoteNextSerial (x : Store) (join : NodeExecutionId) (now : ℕ) :
    Except OrchestrationPersistenceError (Option SerialEachQueueRow × Store) :=
  if (x.node? join).isNone then .error .missingNodeIdentity
  else if x.state.status.stopped || x.activeTarget join then .ok (none, x)
  else
    match firstRow SerialEachQueueRow.before (x.serialQueue join) with
    | none => .ok (none, x)
    | some next =>
      if x.nodes.any fun row => decide (row.id = next.target) && decide (row.status = .pending) then
        .ok (some next, x.promote next.target now)
      else .ok (none, x)

/-- Take the lease of the run, or take it over from the same owner or after its expiry. -/
def Store.acquire (x : Store) (owner : String) (now : ℕ) : Bool × Store :=
  match x.lease with
  | none => (true, { x with lease := some ⟨owner, 1, now + leaseTtl⟩ })
  | some lease =>
    if lease.expiresAt ≤ now || lease.owner = owner then
      (true, { x with lease := some ⟨owner, lease.fencingToken + 1, now + leaseTtl⟩ })
    else (false, x)

def Store.release (x : Store) (owner : String) : Bool × Store :=
  if x.lease.any (·.owner = owner) then (true, { x with lease := none }) else (false, x)

def Store.dependencyStatuses (x : Store) (join : OrchestrationJoinPolicy) (dependency : String) :
    List OrchestrationNodeStatus :=
  if join = .each then
    ((x.nodes.filter (·.id.nodeKey = dependency)).mergeSort
      fun a b => decide (a.id.iteration ≤ b.id.iteration)).map (·.status)
  else ((x.node? ⟨dependency, 0⟩).map (·.status)).toList

/-- The rank of a source among the rows of the target's dependencies. -/
def eachRank (dependencies : List String) (source : NodeExecution) (rows : List NodeExecution) : ℕ :=
  rows.countP fun row => dependencies.contains row.id.nodeKey &&
    (decide (row.stableOrder < source.stableOrder) ||
      decide (row.stableOrder = source.stableOrder) &&
        decide (row.id.iteration < source.id.iteration))

end VibeKanban.Orchestration
