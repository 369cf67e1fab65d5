import VibeKanban.Lib.Interleaving
import VibeKanban.Orchestration.Store

/-! The orchestration service as programs over atomic statements: SQL statements, transactions and
calls of the agent port. -/
namespace VibeKanban.Orchestration
open Lib
open VibeKanban.Runtime (AgentRunStatus)

inductive OrchestrationServiceError where
  | persistence (error : OrchestrationPersistenceError)
  | port (error : AgentRunPortError)
  | dispatchStopped
  deriving DecidableEq, Repr

/-- `read` stands for the queries no argument singles out. `readSources` says for which target and
source it is made. `note` does nothing: it records the target a source was given. -/
inductive Stmt : Type 1 where
  | read (β : Type) (f : Store → β)
  | now
  | newId
  | readStatus
  | readNodes
  | readSequence
  | readForConsumption (inboxId : ℕ) (join : NodeExecutionId)
  | readNode (id : NodeExecutionId)
  | readConsumption (join source : NodeExecutionId)
  | readSources (target : OrchestrationPlanNode) (source : NodeExecutionId)
  | note (join source target : NodeExecutionId)
  | append (event : OrchestrationEventEnvelope)
  | persistNode (id : NodeExecutionId) (stableOrder : ℕ)
  | cancelUndispatched
  | cancelLinked
  | cancelNode (id : NodeExecutionId)
  | cancelActiveNode (id : NodeExecutionId)
  | projectNode (id : NodeExecutionId) (status : OrchestrationNodeStatus)
  | insertLink (link : AgentRunLink)
  | enqueue (id : ℕ) (command : AgentRunPortCommandEnvelope)
  | claimOutbox (now after : ℕ)
  | markDelivered (id now : ℕ)
  | markFailed (id : ℕ) (error : AgentRunPortError) (availableAt now : ℕ)
  | claimInbox
  | markConsumed (id : ℕ)
  | releaseClaim (id : ℕ)
  | consume (inboxId : ℕ) (join source : NodeExecutionId) (target : Option NodeExecutionId)
    (event : OrchestrationEventEnvelope) (followUp : Option (ℕ × AgentRunPortCommandEnvelope))
  | promote (join : NodeExecutionId) (now : ℕ)
  | acquire (owner : String) (now : ℕ)
  | release (owner : String)
  | reconcileInflight (now : ℕ)
  | reconcileProcessing
  | reconcileLeases
  | create (command : AgentRunPortCommandEnvelope)
  | control (command : AgentRunPortCommandEnvelope)
  | query (agentRunId : ℕ)

@[reducible] def Stmt.Ans : Stmt → Type
  | read β _ => β
  | now | newId | readSequence => ℕ
  | readForConsumption .. => Option (ℕ × List OrchestrationPlanNode)
  | readNode _ => Option NodeExecution
  | readConsumption .. => Option Consumption
  | readSources .. => List NodeExecution
  | readStatus => OrchestrationRunStatus
  | readNodes => List NodeExecution
  | append _ => Except OrchestrationPersistenceError OrchestrationReducerApply
  | cancelUndispatched => List NodeExecutionId
  | cancelLinked => List (NodeExecutionId × ℕ)
  | cancelNode _ | cancelActiveNode _ | markConsumed _ => Bool
  | insertLink _ => Except OrchestrationPersistenceError Unit
  | enqueue .. => Except OrchestrationPersistenceError (ℕ × Bool)
  | claimOutbox .. => Option OutboxRow
  | claimInbox => Option InboxRow
  | consume .. => Except OrchestrationPersistenceError Bool
  | promote .. => Except OrchestrationPersistenceError (Option SerialEachQueueRow)
  | acquire .. => Bool
  | create _ => Except AgentRunPortError ℕ
  | control _ => Except AgentRunPortError Unit
  | query _ => Except AgentRunPortError AgentRunStatus
  | _ => Unit

/-- A transaction that fails is rolled back. -/
def committed {α : Type} (x : Store) :
    Except OrchestrationPersistenceError (α × Store) → Except OrchestrationPersistenceError α × Store
  | .ok (a, y) => (.ok a, y)
  | .error error => (.error error, x)

def Store.setAgent (x : Store) (run : ℕ) (status : AgentRunStatus) : Store :=
  { x with agents := fun id => if id = run then some status else x.agents id }

/-- The claimable row that comes first. -/
def nextClaimable (time : ℕ) (outbox : List OutboxRow) : Option OutboxRow :=
  firstRow OutboxRow.before (outbox.filter (·.claimable time))

/-- The answer of a statement and the tables it leaves behind, with a port that does as it is
told. -/
def Stmt.step : (s : Stmt) → Store → s.Ans × Store
  | read _ f, x => (f x, x)
  | now, x => (x.clock, x)
  | newId, x => (x.nextId, { x with nextId := x.nextId + 1 })
  | readStatus, x => (x.state.status, x)
  | readNodes, x => (x.nodes.mergeSort NodeExecution.before, x)
  | readSequence, x => (x.state.lastEventSequence + 1, x)
  | readForConsumption inboxId join, x =>
    (if (x.inbox.any (·.id = inboxId)) && (x.node? join).isSome then
      some (x.state.lastEventSequence + 1, x.plan) else none, x)
  | readNode id, x => (x.node? id, x)
  | readConsumption join source, x =>
    (x.consumptions.find? fun row => row.join = join && row.source = source, x)
  | readSources _ _, x => (x.nodes, x)
  | note .., x => ((), x)
  | append event, x => committed x (x.appendAndProject event)
  | persistNode id stableOrder, x => ((), x.persistNode id stableOrder)
  | cancelUndispatched, x =>
    ((x.nodes.filter x.undispatched).map (·.id), x.setNodes x.undispatched .cancelled)
  | cancelLinked, x =>
    ((x.nodes.filter x.linkedToCancel).filterMap (fun row =>
      (x.links.find? (·.node = row.id)).map fun link => (row.id, link.agentRunId)),
      x.setNodes x.linkedToCancel .cancelling)
  | cancelNode id, x =>
    let when (row : NodeExecution) := decide (row.id = id) &&
      (decide (row.status = .pending) || decide (row.status = .ready))
    (x.nodes.any when, x.setNodes when .cancelled)
  | cancelActiveNode id, x =>
    let when (row : NodeExecution) := decide (row.id = id) && !isTerminalNode row.status &&
      decide (row.status ≠ .cancelling)
    (x.nodes.any when, x.setNodes when .cancelling)
  | projectNode id status, x =>
    ((), x.setNodes (fun row => decide (row.id = id) && !isTerminalNode row.status) status)
  | insertLink link, x => committed x (x.insertLink link)
  | enqueue id command, x => committed x (x.enqueueOutbox id command)
  | claimOutbox time after, x =>
    let reclaimed := x.reclaimDeliveries time after
    match nextClaimable time reclaimed.outbox with
    | none => (none, reclaimed)
    | some row => (some (row.claimed time), reclaimed.claimOutboxRow time row.id)
  | markDelivered id time, x =>
    ((), x.setOutbox (fun row => decide (row.id = id) && decide (row.status = .delivering))
      fun row => { row with status := .delivered, updatedAt := time })
  | markFailed id error availableAt time, x =>
    ((), x.setOutbox (fun row => decide (row.id = id) && decide (row.status = .delivering))
      fun row => { row with
        status := .failed, lastError := some error, availableAt := availableAt, updatedAt := time })
  | claimInbox, x => x.claimInbox
  | markConsumed id, x =>
    (x.inbox.any fun row => decide (row.id = id) && decide (row.status ≠ .consumed),
      x.markConsumed id)
  | releaseClaim id, x => ((), x.releaseClaim id)
  | consume inboxId join source target event followUp, x =>
    committed x (x.consumeWithEffects inboxId join source target event followUp)
  | promote join time, x => committed x (x.promoteNextSerial join time)
  | acquire owner time, x => x.acquire owner time
  | release owner, x => ((), (x.release owner).2)
  | reconcileInflight time, x => ((), x.reclaimDeliveries time 0)
  | reconcileProcessing, x => ((), x.setInbox (fun row => decide (row.status = .processing)) .pending)
  | reconcileLeases, x => ((), { x with lease := none })
  | create command, x =>
    (.ok command.requestRun, if (x.agents command.requestRun).isSome then x
      else x.setAgent command.requestRun .pending)
  | control command, x =>
    (.ok (), match command.command with
      | .retry .. => x.setAgent command.agentRunId .pending
      | _ => x)
  | query run, x =>
    (match x.agents run with
      | some status => .ok status
      | none => .error .notFound, x)

/-- What a statement can answer and leave behind. Of two outbox rows that tie either is claimed, and
the port answers anything: an acknowledged creation keeps a run that is already there, an
acknowledged retry starts the run again. -/
def Stmt.Exec : (s : Stmt) → Store → s.Ans → Store → Prop
  | claimOutbox time after, x, a, y =>
    let reclaimed := x.reclaimDeliveries time after
    match a with
    | none => (∀ row ∈ reclaimed.outbox, row.claimable time = false) ∧ y = reclaimed
    | some claimed => ∃ row ∈ reclaimed.outbox, row.claimable time = true ∧
      (∀ other ∈ reclaimed.outbox, other.claimable time = true → row.before other = true) ∧
      claimed = row.claimed time ∧ y = reclaimed.claimOutboxRow time row.id
  | create _, x, a, y =>
    match a with
    | .ok run => y = if (x.agents run).isSome then x else x.setAgent run .pending
    | .error _ => y = x
  | control command, x, a, y =>
    match command.command, a with
    | .retry .., .ok _ => ∃ status, y = x.setAgent command.agentRunId status
    | _, _ => y = x
  | query run, x, a, y =>
    (match a with
      | .ok status => x.agents run = some status
      | .error _ => True) ∧ y = x
  | s, x, a, y => (a, y) = s.step x

theorem OutboxRow.before_total (a b : OutboxRow) : a.before b = true ∨ b.before a = true := by
  simp only [OutboxRow.before, Bool.or_eq_true, Bool.and_eq_true, decide_eq_true_eq]
  omega

theorem OutboxRow.before_trans (a b c : OutboxRow) (hab : a.before b = true)
    (hbc : b.before c = true) : a.before c = true := by
  simp only [OutboxRow.before, Bool.or_eq_true, Bool.and_eq_true, decide_eq_true_eq] at hab hbc ⊢
  omega

theorem nextClaimable_eq_some {time : ℕ} {outbox : List OutboxRow} {row : OutboxRow}
    (h : nextClaimable time outbox = some row) : row ∈ outbox ∧ row.claimable time = true ∧
      ∀ other ∈ outbox, other.claimable time = true → row.before other = true := by
  obtain ⟨hmem, hfirst⟩ := firstRow_eq_some OutboxRow.before_total OutboxRow.before_trans h
  obtain ⟨hrow, hclaimable⟩ := List.mem_filter.mp hmem
  refine ⟨hrow, hclaimable, ?_⟩
  intro other hother hclaim
  exact hfirst other (List.mem_filter.mpr ⟨hother, hclaim⟩)

/-- The step is one of the executions. -/
theorem Stmt.step_exec (s : Stmt) (x : Store) : s.Exec x (s.step x).1 (s.step x).2 := by
  cases s with
  | claimOutbox time after =>
    simp only [Stmt.step, Stmt.Exec]
    cases hnext : nextClaimable time (x.reclaimDeliveries time after).outbox with
    | none =>
      refine ⟨?_, rfl⟩
      intro row hrow
      have hempty := firstRow_eq_none.mp hnext
      simpa using List.filter_eq_nil_iff.mp hempty row hrow
    | some row =>
      obtain ⟨hrow, hclaimable, hfirst⟩ := nextClaimable_eq_some hnext
      exact ⟨row, hrow, hclaimable, hfirst, rfl, rfl⟩
  | control command =>
    simp only [Stmt.step, Stmt.Exec]
    cases command.command with
    | retry mode attempt => exact ⟨.pending, rfl⟩
    | _ => rfl
  | query run =>
    simp only [Stmt.step, Stmt.Exec]
    cases hrun : x.agents run with
    | none => exact ⟨trivial, trivial⟩
    | some status => exact ⟨rfl, trivial⟩
  | _ => rfl

/-- The step of a statement that is not refused. -/
def Stmt.unless (refused : Stmt → Store → Bool) (s : Stmt) (x : Store) : Option (s.Ans × Store) :=
  if refused s x then none else some (s.step x)

theorem Stmt.unless_exec {refused : Stmt → Store → Bool} (s : Stmt) (x : Store) (a : s.Ans)
    (y : Store) (h : Stmt.unless refused s x = some (a, y)) : s.Exec x a y := by
  unfold Stmt.unless at h
  split_ifs at h
  have hexec := s.step_exec x
  rwa [Option.some.inj h] at hexec

theorem Stmt.not_refused {refused : Stmt → Store → Bool} {s : Stmt} {x y : Store} {a : s.Ans}
    (h : Stmt.unless refused s x = some (a, y)) : refused s x = false := by
  unfold Stmt.unless at h
  split_ifs at h with hrefused
  simpa using hrefused

abbrev Program := Prog Stmt Stmt.Ans OrchestrationServiceError

/-- Calls of one or several services under way on the run. -/
abbrev Calls := World Stmt Stmt.Ans OrchestrationServiceError Store

/-- The statement and answer of a step. -/
def Executes (s : Stmt) (a : s.Ans) (w w' : Calls) : Prop := w'.trace = ⟨s, a⟩ :: w.trace

namespace Program

def exec (s : Stmt) : Program s.Ans := Prog.stmt s

def read {β : Type} (f : Store → β) : Program β := exec (.read β f)

def persisted {α : Type} (result : Except OrchestrationPersistenceError α) : Program α :=
  Prog.ofExcept (result.mapError .persistence)

end Program

open Program

def appendEvent (owner : String) (payload : OrchestrationEventPayload) :
    Program OrchestrationReducerApply := do
  let now ← exec .now
  let acquired ← exec (.acquire owner now)
  if !acquired then Prog.fail (.persistence (.idempotencyConflict .lease))
  else
    let sequence ← exec .readSequence
    let id ← exec .newId
    let result ← exec (.append ⟨.fresh id, sequence, now, payload⟩)
    exec (.release owner)
    persisted result

/-- Whether a command may not be started any more. Only Create and Retry are checked. -/
def dispatchStopped (command : AgentRunPortCommand) : Program Bool :=
  if command.launches then do return (← exec .readStatus).stopped else pure false

def enqueueCommand (owner : String) (command : AgentRunPortCommandEnvelope) : Program ℕ := do
  if ← dispatchStopped command.command then Prog.fail .dispatchStopped
  else
    let id ← exec .newId
    let (outboxId, inserted) ← persisted (← exec (.enqueue id command))
    if inserted then
      let _ ← appendEvent owner (.commandQueued command.commandId command.idempotencyKey)
    return outboxId

def persistLink (link : AgentRunLink) : Program (Except OrchestrationPersistenceError Unit) := do
  match ← exec (.insertLink link) with
  | .error error => return .error error
  | .ok _ =>
    let existing ← read fun x => x.links.find? (·.dispatchKey = link.dispatchKey)
    if existing = some link then return .ok ()
    else return .error (.idempotencyConflict .agentRunLink)

/-- The call of the port for a command, and the link of a run it created. -/
def dispatch (envelope : AgentRunPortCommandEnvelope) : Program (Except AgentRunPortError Unit) :=
  match envelope.command with
  | .create requestRun .. => do
    match ← exec (.create envelope) with
    | .error error => return .error error
    | .ok run =>
      if run ≠ requestRun then
        return .error (.rejected "AgentRunPort returned a different run identity")
      else
        return (← persistLink ⟨envelope.node, run, envelope.idempotencyKey⟩).mapError .rejectedLink
  | _ => exec (.control envelope)

/-- Hand the command of a claimed row to the port and record the outcome. -/
def deliver (outbox : OutboxRow) : Program Bool := do
  if ← dispatchStopped outbox.command.command then
    exec (.markDelivered outbox.id (← exec .now))
    return true
  else
    match ← dispatch outbox.command with
    | .ok _ =>
      exec (.markDelivered outbox.id (← exec .now))
      return true
    | .error error =>
      let now ← exec .now
      exec (.markFailed outbox.id error (now + 1000) now)
      Prog.fail (.port error)

def deliverNextAfter (redelivery : ℕ) : Program Bool := do
  let now ← exec .now
  match ← exec (.claimOutbox now redelivery) with
  | none => return false
  | some outbox => deliver outbox

def deliverNext : Program Bool := deliverNextAfter redeliveryAfter

def cancelCommand (node : NodeExecutionId) (agentRunId now : ℕ) (reason : String) :
    AgentRunPortCommandEnvelope :=
  ⟨.cancel node, .cancel node, agentRunId, node, now, .cancel reason⟩

def applyFailFastCancellation (owner : String) : Program Unit := do
  let now ← exec .now
  let undispatched ← exec .cancelUndispatched
  Prog.forEach (fun node => do
    let _ ← appendEvent owner (.nodeStatusChanged node .cancelled)) undispatched
  let active ← exec .cancelLinked
  Prog.forEach (fun (node, run) => do
    let _ ← appendEvent owner (.nodeStatusChanged node .cancelling)
    let _ ← enqueueCommand owner (cancelCommand node run now "fail_fast sibling cancellation"))
    active

def failFastFailed (plan : List OrchestrationPlanNode) (nodes : List NodeExecution) : Bool :=
  nodes.any fun row => row.status = .failed && plan.any fun node =>
    node.nodeKey = row.id.nodeKey && node.failurePolicy = .failFast

def runFacts (plan : List OrchestrationPlanNode) (nodes : List NodeExecution) :
    List (OrchestrationNodeStatus × OrchestrationFailurePolicy) :=
  nodes.map fun row => (row.status,
    ((plan.find? (·.nodeKey = row.id.nodeKey)).map (·.failurePolicy)).getD .failFast)

def refreshRunProjection (owner : String) : Program OrchestrationRunStatus := do
  let current ← exec .readStatus
  if current.isTerminal then return current
  else
    let nodes ← exec .readNodes
    let plan ← read (·.plan)
    if current ≠ .cancelling && failFastFailed plan nodes then
      applyFailFastCancellation owner
      let apply ← appendEvent owner (.lifecycleChanged .failed)
      return if apply = .duplicate then current else .failed
    else
      let projected := projectRunStatus current (runFacts plan nodes)
      if projected ≠ current then
        let _ ← appendEvent owner (.lifecycleChanged projected)
      return projected

/-- Queue the cancellation of a child unless it is queued already. -/
def cancelChild (owner : String) (node : NodeExecutionId) (agentRunId : ℕ) : Program Unit := do
  let queued ← read fun x => x.outbox.any (·.command.idempotencyKey = .cancel node)
  if !queued then
    let now ← exec .now
    let _ ← enqueueCommand owner
      (cancelCommand node agentRunId now "parent orchestration cancelled")

def cancel (owner : String) : Program OrchestrationReducerApply := do
  let current ← exec .readStatus
  if current.isTerminal then return .duplicate
  else
    let apply ← if current = .cancelling then pure OrchestrationReducerApply.duplicate
      else appendEvent owner (.lifecycleChanged .cancelling)
    let undispatched ← exec .cancelUndispatched
    Prog.forEach (fun node => do
      let _ ← appendEvent owner (.nodeStatusChanged node .cancelled)) undispatched
    let linked ← exec .cancelLinked
    Prog.forEach (fun (node, _) => do
      let _ ← appendEvent owner (.nodeStatusChanged node .cancelling)) linked
    let children ← read (·.activeChildren)
    Prog.forEach (fun (node, run) => cancelChild owner node run) children
    let _ ← refreshRunProjection owner
    return apply

def consumeSourceEventWithEffects (owner : String) (inboxId : ℕ) (join source : NodeExecutionId)
    (target : Option NodeExecutionId) (command : Option AgentRunPortCommandEnvelope) :
    Program Bool := do
  match ← exec (.readForConsumption inboxId join) with
  | none => Prog.fail (.persistence .database)
  | some (sequence, plan) =>
    match plan.find? (·.nodeKey = join.nodeKey) with
    | none => Prog.fail (.persistence .missingNodeIdentity)
    | some node =>
      let now ← exec .now
      let acquired ← exec (.acquire owner now)
      if !acquired then Prog.fail (.persistence (.idempotencyConflict .lease))
      else
        let now ← exec .now
        let id ← exec .newId
        let result ← exec (.consume inboxId join source target ⟨.joinDecision join source, sequence,
          now, .joinDecided join node.join [source]⟩ (command.map fun command => (id, command)))
        exec (.release owner)
        persisted result

def persistIdentityBeforeDispatch (id : NodeExecutionId) (stableOrder : ℕ) :
    Program NodeExecutionId := do
  exec (.persistNode id stableOrder)
  match ← exec (.readNode id) with
  | none => Prog.fail (.persistence .missingNodeIdentity)
  | some existing =>
    if existing.stableOrder ≠ stableOrder then
      Prog.fail (.persistence (.idempotencyConflict .nodeExecution))
    else return existing.id

def joinDependencyStatuses (target : OrchestrationPlanNode) :
    Program (List OrchestrationNodeStatus) := do
  let found ← Prog.collect (fun dependency => read (·.dependencyStatuses target.join dependency))
    target.dependencies
  return found.flatMap fun statuses => if statuses.isEmpty then [.pending] else statuses

def eachTargetIteration (target : OrchestrationPlanNode) (source : NodeExecutionId) :
    Program ℕ := do
  match ← exec (.readNode source) with
  | none => Prog.fail (.persistence .missingNodeIdentity)
  | some row =>
    let rows ← exec (.readSources target source)
    let rank := eachRank target.dependencies row rows
    if rank < 2 ^ 32 then return rank else Prog.fail (.persistence .missingNodeIdentity)

/-- The join and the target execution of a source. -/
def ensureJoinTargetExecution (target : OrchestrationPlanNode) (source : NodeExecutionId) :
    Program (NodeExecutionId × NodeExecutionId) := do
  let join : NodeExecutionId := ⟨target.nodeKey, 0⟩
  let existing ← exec (.readConsumption join source)
  match existing.bind (·.target) with
  | some id => return (join, id)
  | none =>
    let iteration ← if target.join = .each then eachTargetIteration target source else pure 0
    let id ← persistIdentityBeforeDispatch ⟨target.nodeKey, iteration⟩ target.stableOrder
    return (join, id)

/-- Cancel one other source of an Any join; the answer counts queued commands. -/
def cancelRemainingSource (owner : String) (join source : NodeExecutionId) (dependency : String) :
    Program ℕ := do
  let id : NodeExecutionId := ⟨dependency, 0⟩
  let found ← read fun x => (x.node? id).map fun row =>
    (row.status, (x.links.find? (·.node = id)).map (·.agentRunId))
  match found with
  | none => return 0
  | some (status, run) =>
    if id = source then return 0
    else match run with
    | none =>
      if status = .pending ∨ status = .ready then
        if ← exec (.cancelNode id) then
          let _ ← appendEvent owner (.nodeStatusChanged id .cancelled)
      return 0
    | some run =>
      if status = .running ∨ status = .awaitingInput ∨ status = .awaitingApproval then
        if ← exec (.cancelActiveNode id) then
          let _ ← appendEvent owner (.nodeStatusChanged id .cancelling)
          let queued ← read fun x =>
            x.outbox.any (·.command.idempotencyKey = .cancelRemaining join id)
          if queued then return 0
          else
            let now ← exec .now
            let _ ← enqueueCommand owner ⟨.cancelRemaining join id, .cancelRemaining join id, run, id,
              now, .cancel "any join cancel_remaining"⟩
            return 1
        else return 0
      else return 0

def cancelRemainingJoinSources (owner : String) (join source : NodeExecutionId)
    (target : OrchestrationPlanNode) : Program ℕ := do
  let queued ← Prog.collect (cancelRemainingSource owner join source) target.dependencies
  return queued.sum

structure InboxDrainReport where
  claimed : ℕ
  consumed : ℕ
  joinDecisions : ℕ
  cancelCommandsQueued : ℕ
  deriving DecidableEq, Repr

def JoinDecision.isReady : JoinDecision → Bool
  | ready | readyAndCancelRemaining => true
  | _ => false

/-- The decisions of all targets, unless one of them waits. -/
def evaluateTargets : List OrchestrationPlanNode →
    Program (Option (List (OrchestrationPlanNode × JoinDecision)))
  | [] => return some []
  | target :: rest => do
    let statuses ← joinDependencyStatuses target
    let decision := evaluateJoin target.join target.failurePolicy target.remainingUpstreams statuses
    if decision = .waiting then return none
    else return (← evaluateTargets rest).map ((target, decision) :: ·)

/-- Carry out the decision of one target. -/
def settleTarget (owner : String) (inbox : InboxRow) (source : NodeExecutionId)
    (report : InboxDrainReport) (target : OrchestrationPlanNode) (decision : JoinDecision) :
    Program InboxDrainReport := do
  let (join, id) ← ensureJoinTargetExecution target source
  if decision.isReady then
    let inserted ← consumeSourceEventWithEffects owner inbox.id join source (some id) none
    let report := { report with joinDecisions := report.joinDecisions + if inserted then 1 else 0 }
    if decision = .readyAndCancelRemaining then
      let queued ← cancelRemainingJoinSources owner join source target
      return { report with cancelCommandsQueued := report.cancelCommandsQueued + queued }
    else return report
  else
    let _ ← exec (.markConsumed inbox.id)
    return report

def settleTargets (owner : String) (inbox : InboxRow) (source : NodeExecutionId) :
    InboxDrainReport → List (OrchestrationPlanNode × JoinDecision) → Program InboxDrainReport
  | report, [] => return report
  | report, (target, decision) :: rest => do
    let report ← settleTarget owner inbox source report target decision
    settleTargets owner inbox source report rest

/-- Mark a row consumed; the count follows what the statement changed. -/
def acknowledge (inbox : InboxRow) (report : InboxDrainReport) : Program InboxDrainReport := do
  let changed ← exec (.markConsumed inbox.id)
  return { report with consumed := report.consumed + if changed then 1 else 0 }

def InboxRow.terminalStatus (row : InboxRow) : Option AgentRunStatus :=
  match row.event.payload with
  | .lifecycleChanged status => if status.isTerminal then some status else none
  | _ => none

/-- One claimed row: the report, and whether the loop goes on. -/
def drainRow (owner : String) (plan : List OrchestrationPlanNode) (inbox : InboxRow)
    (report : InboxDrainReport) : Program (Bool × InboxDrainReport) := do
  match inbox.terminalStatus, inbox.event.node with
  | none, _ => return (true, ← acknowledge inbox report)
  | some _, none =>
    let _ ← exec (.markConsumed inbox.id)
    return (true, { report with consumed := report.consumed + 1 })
  | some status, some source =>
    match ← read fun x => (x.node? source).map (·.status) with
    | none =>
      let _ ← exec (.markConsumed inbox.id)
      return (true, { report with consumed := report.consumed + 1 })
    | some sourceStatus =>
      if status ≠ .succeeded then return (true, ← acknowledge inbox report)
      else
        let agentStatus ← read fun x => x.agents inbox.event.agentRunId
        if sourceStatus ≠ .succeeded ∨ agentStatus ≠ some .succeeded then
          exec (.releaseClaim inbox.id)
          return (false, report)
        else
          let targets := plan.filter fun node => node.dependencies.contains source.nodeKey
          if targets.isEmpty then
            let _ ← exec (.markConsumed inbox.id)
            return (true, { report with consumed := report.consumed + 1 })
          else match ← evaluateTargets targets with
            | none =>
              exec (.releaseClaim inbox.id)
              return (false, report)
            | some decisions =>
              let report ← settleTargets owner inbox source report decisions
              return (true, { report with consumed := report.consumed + 1 })

/-- The loop of a run that is not terminal. It claims rows until none is pending or one blocks; the
fuel bounds its rounds and `none` says that it ran out. -/
def drainLoop (owner : String) (plan : List OrchestrationPlanNode) :
    ℕ → InboxDrainReport → Program (Option InboxDrainReport)
  | 0, _ => return none
  | fuel + 1, report => do
    match ← exec .claimInbox with
    | none => return some report
    | some inbox =>
      let (goOn, report) ← drainRow owner plan inbox { report with claimed := report.claimed + 1 }
      if goOn then drainLoop owner plan fuel report else return some report

/-- The loop of a terminal run: every row is acknowledged. -/
def drainTerminal : ℕ → InboxDrainReport → Program (Option InboxDrainReport)
  | 0, _ => return none
  | fuel + 1, report => do
    match ← exec .claimInbox with
    | none => return some report
    | some inbox =>
      let report ← acknowledge inbox { report with claimed := report.claimed + 1 }
      drainTerminal fuel report

def drainInboxForRun (owner : String) (fuel : ℕ) : Program (Option InboxDrainReport) := do
  let status ← exec .readStatus
  let plan ← read (·.plan)
  if status.isTerminal then drainTerminal fuel ⟨0, 0, 0, 0⟩
  else drainLoop owner plan fuel ⟨0, 0, 0, 0⟩

def resumeSerialQueue (join : NodeExecutionId) : Program (Option SerialEachQueueRow) := do
  let now ← exec .now
  persisted (← exec (.promote join now))

def resumeSerialQueuesForRun : Program (List SerialEachQueueRow) := do
  let plan ← read (·.plan)
  let serial := plan.filter fun node =>
    decide (node.join = .each) && decide (node.eachDownstreamExecution = .serial)
  let promoted ← Prog.collect (fun node => resumeSerialQueue ⟨node.nodeKey, 0⟩) serial
  return promoted.filterMap id

/-- Project what the port answers about one child; the answer counts the child as unreachable. -/
def reconcileChild (owner : String) (node : NodeExecutionId) (agentRunId : ℕ)
    (current : OrchestrationNodeStatus) : Program ℕ := do
  match ← exec (.query agentRunId) with
  | .error .notFound | .error (.unavailable _) => return 1
  | .error error => Prog.fail (.port error)
  | .ok status =>
    let observed := nodeStatusFromAgent status
    if current = observed || isTerminalNode current then return 0
    else
      exec (.projectNode node observed)
      let _ ← appendEvent owner (.nodeStatusChanged node observed)
      return 0

def reconcileRun (owner : String) : Program ℕ := do
  let status ← exec .readStatus
  if status = .cancelling then
    let _ ← cancel owner
  let children ← read (·.activeRows)
  let unreachable ← Prog.collect
    (fun (node, run, current) => reconcileChild owner node run current) children
  let _ ← resumeSerialQueuesForRun
  let _ ← refreshRunProjection owner
  return unreachable.sum

end VibeKanban.Orchestration
