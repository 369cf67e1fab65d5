import VibeKanban.Agent.Port

/-! The events of a process host, as the port applies them to the log of their run. -/
namespace VibeKanban.Agent
open Lib
open VibeKanban.Runtime (AgentRunStatus)

inductive HostEventPayload where
  | started (pid : ℕ) (canonicalInputRef : NativeAuditReference)
  | mapped (payload : AgentEventPayload) (timestamp eventId : ℕ) (nativeRef : NativeAuditReference)
  | terminal (status : AgentRunStatus) (error : Option AgentRuntimeError) (errorEventId : Option ℕ)
  deriving DecidableEq, Repr

structure HostEvent where
  eventId : ℕ
  timestamp : ℕ
  payload : HostEventPayload
  deriving DecidableEq, Repr

def preferCancellationTerminal (providerStatus : AgentRunStatus)
    (processWasConfirmedExited : Bool) : AgentRunStatus :=
  match providerStatus with
  | .auditFailed => .auditFailed
  | .cancelled | .succeeded | .failed => .cancelled
  | .crashed => if processWasConfirmedExited then .cancelled else .crashed
  | status => status

/-- What a call does to the port, also where it fails half way. -/
abbrev PortResult := Port × Except AgentRunPortError Unit

/-- Go on unless it has failed. -/
def PortResult.andThen (result : PortResult) (rest : Port → PortResult) : PortResult :=
  match result.2 with
  | .ok () => rest result.1
  | .error error => (result.1, .error error)

namespace Port

def done (port : Port) : PortResult := (port, .ok ())

def append (port : Port) (request : AgentRunRequestEnvelope) (attempt : RunAttemptRequest)
    (body : EventBody) : PortResult :=
  match port.appendEvent request attempt body with
  | .ok (_, port) => (port, .ok ())
  | .error error => (port, .error error)

def status? (port : Port) (agentRunId : ℕ) : Option AgentRunStatus :=
  (port.query agentRunId).toOption.map (·.status)

/-- The row of a process that has begun; one that has exited stays. -/
def markProcessStarted (port : Port) (runAttemptId pid : ℕ) : Port :=
  let registry := updateWhere
    (fun row => row.runAttemptId = runAttemptId && decide (row.status ≠ .exited))
    (fun row => { row with status := .running, pid := some pid }) port.registry
  { port with registry }

/-- The row of a process that has ended; one that never began stays. -/
def markProcessExited (port : Port) (runAttemptId : ℕ) : Port :=
  let registry := updateWhere
    (fun row => row.runAttemptId = runAttemptId &&
      decide (row.status ≠ .reserved ∧ row.status ≠ .exited))
    (fun row => { row with status := .exited }) port.registry
  { port with registry }

def process? (port : Port) (runAttemptId : ℕ) : Option ProcessRow :=
  port.registry.find? (·.runAttemptId = runAttemptId)

def inputBody (request : AgentRunRequestEnvelope) (inputRef : NativeAuditReference) : EventBody :=
  ⟨.message request.input false, [inputRef], request.createdAt, request.input.messageId⟩

/-- The input of the request, then the change to running. -/
def applyStarted (port : Port) (request : AgentRunRequestEnvelope) (attempt : RunAttemptRequest)
    (event : HostEvent) (pid : ℕ) (inputRef : NativeAuditReference) : PortResult :=
  ((port.markProcessStarted attempt.runAttemptId pid).append request attempt
    (inputBody request inputRef)).andThen fun port =>
      port.append request attempt ⟨.lifecycleChanged .running, [], event.timestamp, event.eventId⟩

/-- Whether a lifecycle event of the provider is not stored: the run has ended, or is being cancelled
and the event does not confirm it. -/
def suppresses (port : Port) (agentRunId : ℕ) (payload : AgentEventPayload) : Bool :=
  match payload.lifecycle, port.status? agentRunId with
  | some status, some current =>
    current.isTerminal || (decide (current = .cancelling) && decide (status ≠ .cancelled))
  | _, _ => false

def appendMappedEvent (port : Port) (request : AgentRunRequestEnvelope) (attempt : RunAttemptRequest)
    (body : EventBody) : PortResult :=
  if port.suppresses request.agentRunId body.payload then port.done
  else port.append request attempt body

/-- The status that the end of a process is stored with. -/
def terminalStatus (port : Port) (request : AgentRunRequestEnvelope) (attempt : RunAttemptRequest)
    (status : AgentRunStatus) : AgentRunStatus :=
  if port.status? request.agentRunId = some .cancelling then
    preferCancellationTerminal status
      (((port.process? attempt.runAttemptId).map (·.status)) = some .exited)
  else status

/-- The error of a run that was not cancelled. -/
def appendError (port : Port) (request : AgentRunRequestEnvelope) (attempt : RunAttemptRequest)
    (status : AgentRunStatus) (error : Option AgentRuntimeError) (timestamp errorEventId : ℕ) :
    PortResult :=
  match error with
  | some error =>
    if status = .cancelled then port.done
    else port.append request attempt ⟨.error error, [], timestamp, errorEventId⟩
  | none => port.done

/-- The status of a run that had not ended. -/
def appendTerminal (port : Port) (request : AgentRunRequestEnvelope) (attempt : RunAttemptRequest)
    (status : AgentRunStatus) (timestamp eventId : ℕ) : PortResult :=
  if (port.status? request.agentRunId).any AgentRunStatus.isTerminal then port.done
  else port.append request attempt ⟨.lifecycleChanged status, [], timestamp, eventId⟩

/-- `fresh` is the id of an error that the host has given none. -/
def applyTerminal (port : Port) (request : AgentRunRequestEnvelope) (attempt : RunAttemptRequest)
    (fresh : ℕ) (event : HostEvent) (status : AgentRunStatus) (error : Option AgentRuntimeError)
    (errorEventId : Option ℕ) : PortResult :=
  let status := port.terminalStatus request attempt status
  ((port.appendError request attempt status error event.timestamp
    (errorEventId.getD fresh)).andThen fun port =>
      port.appendTerminal request attempt status event.timestamp event.eventId).andThen fun port =>
        if ((port.process? attempt.runAttemptId).bind (·.pid)).isSome then
          (port.markProcessExited attempt.runAttemptId).done
        else port.done

def applyHostEvent (port : Port) (request : AgentRunRequestEnvelope) (attempt : RunAttemptRequest)
    (fresh : ℕ) (event : HostEvent) : PortResult :=
  match event.payload with
  | .started pid inputRef => port.applyStarted request attempt event pid inputRef
  | .mapped payload timestamp eventId nativeRef =>
    port.appendMappedEvent request attempt ⟨payload, [nativeRef], timestamp, eventId⟩
  | .terminal status error errorEventId =>
    port.applyTerminal request attempt fresh event status error errorEventId

/-- The events in order, up to the first that fails. -/
def applyHostEvents (port : Port) (request : AgentRunRequestEnvelope) (attempt : RunAttemptRequest)
    (fresh : ℕ) : List HostEvent → PortResult
  | [] => port.done
  | event :: rest => (port.applyHostEvent request attempt fresh event).andThen fun port =>
      port.applyHostEvents request attempt fresh rest

end Port

end VibeKanban.Agent
