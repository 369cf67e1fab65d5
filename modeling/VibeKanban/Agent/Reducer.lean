import Mathlib.Data.Prod.Lex
import VibeKanban.Agent.Audit
import VibeKanban.Agent.Event
import VibeKanban.Lib.Fold

/-! The reducer that projects the events of an AgentRun onto its state, and the cursor it keeps. -/
namespace VibeKanban.Agent
open Lib
open VibeKanban.Runtime (AgentRunStatus)

def agentEventSchemaVersion : UInt16 := 1

def agentEventPayloadVersion : UInt16 := 1

def runStateSchemaVersion : UInt16 := 1

def runStateReducerVersion : UInt16 := 1

structure AgentEventEnvelope where
  schemaVersion : UInt16
  payloadVersion : UInt16
  eventId : ℕ
  sessionId : ℕ
  agentRunId : ℕ
  turnId : ℕ
  runAttemptId : ℕ
  runAttemptNumber : ℕ
  sequence : ℕ
  correlationId : ℕ
  orchestrationRunId : Option ℕ
  orchestrationNodeExecutionId : Option ℕ
  timestamp : ℕ
  nativeRefs : List NativeAuditReference
  payload : AgentEventPayload
  deriving DecidableEq, Repr

inductive ProjectionStatus where
  | current | projectionDegraded | rebuilding
  deriving DecidableEq, Repr

structure RunState where
  stateSchemaVersion : UInt16
  reducerVersion : UInt16
  sessionId : ℕ
  agentRunId : ℕ
  turnId : ℕ
  status : AgentRunStatus
  projectionStatus : ProjectionStatus
  lastRunAttemptId : Option ℕ
  lastRunAttemptNumber : ℕ
  lastEventSequence : ℕ
  lastEventId : Option ℕ
  providerSession : Option ProviderSessionReference
  terminalOutput : Option CanonicalMessage
  lastError : Option AgentRuntimeError
  unknownEventCount : ℕ
  updatedAt : ℕ
  deriving DecidableEq, Repr

/-- What the state of a run takes from its request. -/
structure AgentRunRequest where
  sessionId : ℕ
  agentRunId : ℕ
  turnId : ℕ
  createdAt : ℕ
  deriving DecidableEq, Repr

inductive ContractVersionError where
  | missingUpcaster (contract : String) (provided current : UInt16)
  | unsupportedFutureVersion (contract : String) (provided current : UInt16)
  deriving DecidableEq, Repr

inductive ReducerApply where
  | applied | appliedDegraded | duplicate | ignoredTerminalRegression
  deriving DecidableEq, Repr

inductive ReducerError where
  | eventVersion (error : ContractVersionError)
  | identityMismatch
  | runAttemptConflict
  | invalidStreamPosition
  | sequenceConflict (received lastApplied : ℕ)
  | unsupportedStateSchema (version : UInt16)
  | unsupportedReducerVersion (version : UInt16)
  deriving DecidableEq, Repr

def validateCurrentVersion (contract : String) (provided current : UInt16) :
    Except ContractVersionError Unit :=
  if provided < current then .error (.missingUpcaster contract provided current)
  else if current < provided then .error (.unsupportedFutureVersion contract provided current)
  else .ok ()

/-- The status that a lifecycle event announces. -/
def AgentEventPayload.lifecycle : AgentEventPayload → Option AgentRunStatus
  | .lifecycleChanged status => some status
  | _ => none

def AgentEventPayload.isUnknown : AgentEventPayload → Bool
  | .unknown _ _ => true
  | _ => false

def AgentEventEnvelope.validateForProjection (event : AgentEventEnvelope) :
    Except ContractVersionError Unit := do
  validateCurrentVersion "agent_event.schema" event.schemaVersion agentEventSchemaVersion
  if event.payloadVersion < agentEventPayloadVersion then
    .error (.missingUpcaster "agent_event.payload" event.payloadVersion agentEventPayloadVersion)
  else if agentEventPayloadVersion < event.payloadVersion && !event.payload.isUnknown then
    .error (.unsupportedFutureVersion "agent_event.payload" event.payloadVersion
      agentEventPayloadVersion)
  else .ok ()

namespace RunState

def pending (request : AgentRunRequest) : RunState where
  stateSchemaVersion := runStateSchemaVersion
  reducerVersion := runStateReducerVersion
  sessionId := request.sessionId
  agentRunId := request.agentRunId
  turnId := request.turnId
  status := .pending
  projectionStatus := .current
  lastRunAttemptId := none
  lastRunAttemptNumber := 0
  lastEventSequence := 0
  lastEventId := none
  providerSession := none
  terminalOutput := none
  lastError := none
  unknownEventCount := 0
  updatedAt := request.createdAt

def degrade (state : RunState) : RunState := { state with projectionStatus := .projectionDegraded }

def validateState (state : RunState) : Except ReducerError Unit :=
  if state.stateSchemaVersion ≠ runStateSchemaVersion then
    .error (.unsupportedStateSchema state.stateSchemaVersion)
  else if state.reducerVersion ≠ runStateReducerVersion then
    .error (.unsupportedReducerVersion state.reducerVersion)
  else .ok ()

/-- Whether an event opens an attempt. -/
def isNewAttempt (state : RunState) (event : AgentEventEnvelope) : Except ReducerError Bool :=
  match state.lastRunAttemptId with
  | none => .ok true
  | some lastAttemptId =>
    if event.runAttemptNumber < state.lastRunAttemptNumber then .error .runAttemptConflict
    else if event.runAttemptNumber = state.lastRunAttemptNumber then
      if event.runAttemptId ≠ lastAttemptId then .error .runAttemptConflict else .ok false
    else .ok true

def hadGap (state : RunState) (event : AgentEventEnvelope) (isNew : Bool) : Bool :=
  if isNew then
    decide (event.sequence ≠ 1) || (decide (state.lastRunAttemptNumber ≠ 0) &&
      decide (event.runAttemptNumber ≠ state.lastRunAttemptNumber + 1))
  else decide (event.sequence ≠ state.lastEventSequence + 1)

/-- What the payload does. A status that has ended stays within its attempt. -/
def applyPayload (state : RunState) (isNew : Bool) : AgentEventPayload → RunState × ReducerApply
  | .lifecycleChanged status =>
    if !isNew && state.status.isTerminal then (state, .ignoredTerminalRegression)
    else ({ state with status := status }, .applied)
  | .sessionObserved providerSession =>
    ({ state with providerSession := some providerSession }, .applied)
  | .message message finalOutput =>
    (if finalOutput then { state with terminalOutput := some message } else state, .applied)
  | .error error => ({ state with lastError := some error }, .applied)
  | .projectionDegraded _ => (state.degrade, .appliedDegraded)
  | .unknown _ _ =>
    ({ state with unknownEventCount := state.unknownEventCount + 1 }.degrade, .appliedDegraded)
  | .thinking _ | .fileChanges _ _ | .toolCall _ _ _ _ _ | .approvalRequested _ _ _
  | .approvalResolved _ _ _ | .inputRequested _ _ | .inputResolved _ _ | .tokenUsage _ _ _
  | .providerExtension _ _ _ => (state, .applied)

/-- The state in which the payload of an event is applied. -/
def opened (state : RunState) (event : AgentEventEnvelope) (isNew : Bool) : RunState :=
  let state := if state.hadGap event isNew then state.degrade else state
  if isNew then { state with terminalOutput := none, lastError := none } else state

/-- The cursor behind an event. -/
def advance (state : RunState) (event : AgentEventEnvelope) : RunState :=
  { state with
    lastRunAttemptId := some event.runAttemptId
    lastRunAttemptNumber := event.runAttemptNumber
    lastEventSequence := event.sequence
    lastEventId := some event.eventId
    updatedAt := event.timestamp }

/-- An event that was neither refused nor seen before. -/
def accept (state : RunState) (event : AgentEventEnvelope) (isNew : Bool) :
    RunState × ReducerApply :=
  let (applied, apply) := (state.opened event isNew).applyPayload isNew event.payload
  let next := applied.advance event
  if state.hadGap event isNew || next.projectionStatus = .projectionDegraded then
    match apply with
    | .duplicate => (next, .duplicate)
    | .ignoredTerminalRegression => (next, .ignoredTerminalRegression)
    | _ => (next, .appliedDegraded)
  else (next, apply)

/-- The state is left as it is or degraded when the event is refused. -/
def reduceAgentEvent (state : RunState) (event : AgentEventEnvelope) :
    RunState × Except ReducerError ReducerApply :=
  match state.validateState with
  | .error error => (state, .error error)
  | .ok () =>
  match event.validateForProjection with
  | .error error => (state.degrade, .error (.eventVersion error))
  | .ok () =>
  if state.sessionId ≠ event.sessionId ∨ state.agentRunId ≠ event.agentRunId ∨
      state.turnId ≠ event.turnId then (state, .error .identityMismatch)
  else if event.runAttemptNumber = 0 ∨ event.sequence = 0 then
    (state.degrade, .error .invalidStreamPosition)
  else
  match state.isNewAttempt event with
  | .error error => (state.degrade, .error error)
  | .ok isNew =>
  if !isNew && decide (event.sequence ≤ state.lastEventSequence) then
    if event.sequence = state.lastEventSequence ∧ state.lastEventId = some event.eventId then
      (state, .ok .duplicate)
    else (state.degrade, .error (.sequenceConflict event.sequence state.lastEventSequence))
  else
    let (state, apply) := state.accept event isNew
    (state, .ok apply)

/-- The status behind a payload: a lifecycle change, unless the attempt has ended before. -/
def nextStatus (state : RunState) (isNew : Bool) (payload : AgentEventPayload) : AgentRunStatus :=
  match payload.lifecycle with
  | none => state.status
  | some status => if !isNew && state.status.isTerminal then state.status else status

/-- What the acceptance of an event has checked. -/
structure Accepts (state : RunState) (event : AgentEventEnvelope) (isNew : Bool) : Prop where
  valid : state.validateState = .ok ()
  projects : event.validateForProjection = .ok ()
  sessionId : state.sessionId = event.sessionId
  agentRunId : state.agentRunId = event.agentRunId
  turnId : state.turnId = event.turnId
  number_pos : 0 < event.runAttemptNumber
  sequence_pos : 0 < event.sequence
  attempt : state.isNewAttempt event = .ok isNew
  later : isNew = false → state.lastEventSequence < event.sequence

/-- An event is refused, known already, or accepted. -/
theorem reduceAgentEvent_cases (state : RunState) (event : AgentEventEnvelope) :
    (∃ error, state.reduceAgentEvent event = (state, .error error)) ∨
      (∃ error, state.reduceAgentEvent event = (state.degrade, .error error)) ∨
      (state.reduceAgentEvent event = (state, .ok .duplicate) ∧
        state.lastEventId = some event.eventId) ∨
      ∃ isNew, state.Accepts event isNew ∧ state.reduceAgentEvent event =
        ((state.accept event isNew).1, .ok (state.accept event isNew).2) := by
  unfold reduceAgentEvent
  cases hvalid : state.validateState with
  | error error => exact .inl ⟨error, rfl⟩
  | ok _ =>
  cases hprojects : event.validateForProjection with
  | error error => exact .inr (.inl ⟨_, rfl⟩)
  | ok _ =>
  by_cases hidentity : state.sessionId ≠ event.sessionId ∨ state.agentRunId ≠ event.agentRunId ∨
      state.turnId ≠ event.turnId
  · exact .inl ⟨.identityMismatch, by simp only [if_pos hidentity]⟩
  by_cases hposition : event.runAttemptNumber = 0 ∨ event.sequence = 0
  · exact .inr (.inl ⟨.invalidStreamPosition, by simp only [if_neg hidentity, if_pos hposition]⟩)
  simp only [if_neg hidentity, if_neg hposition]
  cases hattempt : state.isNewAttempt event with
  | error error => exact .inr (.inl ⟨error, rfl⟩)
  | ok isNew =>
  by_cases hpast : (!isNew && decide (event.sequence ≤ state.lastEventSequence)) = true
  · simp only [if_pos hpast]
    by_cases hsame : event.sequence = state.lastEventSequence ∧ state.lastEventId = some event.eventId
    · exact .inr (.inr (.inl ⟨by rw [if_pos hsame], hsame.2⟩))
    · exact .inr (.inl ⟨_, by rw [if_neg hsame]⟩)
  · simp only [if_neg hpast]
    push Not at hidentity hposition
    refine .inr (.inr (.inr ⟨isNew, ⟨hvalid, hprojects, hidentity.1, hidentity.2.1, hidentity.2.2,
      Nat.pos_of_ne_zero hposition.1, Nat.pos_of_ne_zero hposition.2, hattempt, ?_⟩, rfl⟩))
    rintro rfl
    simpa using hpast

/-- What has been checked is enough. -/
theorem Accepts.reduce {state : RunState} {event : AgentEventEnvelope} {isNew : Bool}
    (h : state.Accepts event isNew) : state.reduceAgentEvent event =
      ((state.accept event isNew).1, .ok (state.accept event isNew).2) := by
  have hidentity : ¬ (state.sessionId ≠ event.sessionId ∨ state.agentRunId ≠ event.agentRunId ∨
      state.turnId ≠ event.turnId) := by
    simp [h.sessionId, h.agentRunId, h.turnId]
  have hposition : ¬ (event.runAttemptNumber = 0 ∨ event.sequence = 0) := by
    have hnumber := h.number_pos
    have hsequence := h.sequence_pos
    omega
  have hlater : ¬ (!isNew && decide (event.sequence ≤ state.lastEventSequence)) = true := by
    intro hpast
    rw [Bool.and_eq_true, Bool.not_eq_true', decide_eq_true_eq] at hpast
    have hsequence := h.later hpast.1
    omega
  unfold reduceAgentEvent
  rw [h.valid, h.projects]
  simp only [if_neg hidentity, if_neg hposition, h.attempt, if_neg hlater]

/-- What a payload leaves as it is, and the status it makes. -/
theorem applyPayload_eq (state : RunState) (isNew : Bool) (payload : AgentEventPayload) :
    ∃ projectionStatus providerSession terminalOutput lastError unknownEventCount apply,
      state.applyPayload isNew payload =
        ({ state with
            status := state.nextStatus isNew payload
            projectionStatus
            providerSession
            terminalOutput
            lastError
            unknownEventCount }, apply) ∧
      (projectionStatus = .projectionDegraded ∨ projectionStatus = state.projectionStatus) ∧
      apply ≠ .duplicate := by
  cases payload with
  | lifecycleChanged status =>
    by_cases hended : (!isNew && state.status.isTerminal) = true
    · refine ⟨state.projectionStatus, state.providerSession, state.terminalOutput, state.lastError,
        state.unknownEventCount, .ignoredTerminalRegression, ?_, .inr rfl, by decide⟩
      simp only [applyPayload, nextStatus, AgentEventPayload.lifecycle, if_pos hended]
    · refine ⟨state.projectionStatus, state.providerSession, state.terminalOutput, state.lastError,
        state.unknownEventCount, .applied, ?_, .inr rfl, by decide⟩
      simp only [applyPayload, nextStatus, AgentEventPayload.lifecycle, if_neg hended]
  | message message finalOutput =>
    cases finalOutput
    · exact ⟨_, _, _, _, _, _, rfl, .inr rfl, by decide⟩
    · exact ⟨_, _, _, _, _, _, rfl, .inr rfl, by decide⟩
  | projectionDegraded reason => exact ⟨_, _, _, _, _, _, rfl, .inl rfl, by decide⟩
  | unknown eventType payload => exact ⟨_, _, _, _, _, _, rfl, .inl rfl, by decide⟩
  | sessionObserved | thinking | fileChanges | toolCall | approvalRequested | approvalResolved
  | inputRequested | inputResolved | tokenUsage | error | providerExtension =>
    exact ⟨_, _, _, _, _, _, rfl, .inr rfl, by decide⟩

/-- The state behind an accepted event. -/
theorem accept_eq (state : RunState) (event : AgentEventEnvelope) (isNew : Bool) :
    ∃ projectionStatus providerSession terminalOutput lastError unknownEventCount,
      (state.accept event isNew).1 =
        ({ state with
            status := state.nextStatus isNew event.payload
            projectionStatus
            providerSession
            terminalOutput
            lastError
            unknownEventCount } : RunState).advance event ∧
      (projectionStatus = .projectionDegraded ∨
        projectionStatus = state.projectionStatus ∧ state.hadGap event isNew = false) ∧
      (state.accept event isNew).2 ≠ .duplicate := by
  obtain ⟨projectionStatus, providerSession, terminalOutput, lastError, unknownEventCount, apply,
    happly, hprojection, hne⟩ := (state.opened event isNew).applyPayload_eq isNew event.payload
  have hfst : (state.accept event isNew).1 =
      ((state.opened event isNew).applyPayload isNew event.payload).1.advance event := by
    unfold accept
    dsimp only
    split_ifs
    · split <;> rfl
    · rfl
  have hsnd : (state.accept event isNew).2 ≠ .duplicate := by
    unfold accept
    rw [happly]
    dsimp only
    split_ifs
    · split
      · contradiction
      · simp
      · simp
    · exact hne
  refine ⟨projectionStatus, providerSession, terminalOutput, lastError, unknownEventCount, ?_, ?_, hsnd⟩
  · rw [hfst, happly]
    unfold opened nextStatus degrade advance
    cases isNew <;> cases state.hadGap event _ <;> rfl
  · rcases hprojection with h | h
    · exact .inl h
    · cases hgap : state.hadGap event isNew with
      | true =>
        rw [h, opened, hgap]
        cases isNew <;> exact .inl rfl
      | false =>
        rw [h, opened, hgap]
        cases isNew <;> exact .inr ⟨rfl, rfl⟩

theorem accept_degraded {state : RunState} {event : AgentEventEnvelope} {isNew : Bool}
    (h : state.projectionStatus = .projectionDegraded) :
    (state.accept event isNew).1.projectionStatus = .projectionDegraded := by
  obtain ⟨projectionStatus, _, _, _, _, hnext, hprojection, -⟩ := state.accept_eq event isNew
  rw [hnext]
  rcases hprojection with hdegraded | ⟨hsame, -⟩
  · exact hdegraded
  · exact hsame.trans h

/-- Nothing makes a degraded projection current. -/
theorem reduceAgentEvent_degraded {state : RunState}
    (h : state.projectionStatus = .projectionDegraded) (event : AgentEventEnvelope) :
    (state.reduceAgentEvent event).1.projectionStatus = .projectionDegraded := by
  rcases state.reduceAgentEvent_cases event with ⟨error, hr⟩ | ⟨error, hr⟩ | ⟨hr, -⟩ | ⟨isNew, -, hr⟩
  · rw [hr]
    exact h
  · rw [hr]
    rfl
  · rw [hr]
    exact h
  · rw [hr]
    exact accept_degraded h

/-- An event just accepted is known. -/
theorem reduceAgentEvent_accept {state : RunState} {event : AgentEventEnvelope} {isNew : Bool}
    (h : state.Accepts event isNew) :
    (state.accept event isNew).1.reduceAgentEvent event =
      ((state.accept event isNew).1, .ok .duplicate) := by
  obtain ⟨projectionStatus, _, _, _, _, hnext, -, -⟩ := state.accept_eq event isNew
  generalize (state.accept event isNew).1 = next at hnext ⊢
  have hvalid : next.validateState = .ok () := by
    rw [hnext]
    exact h.valid
  have hattempt : next.isNewAttempt event = .ok false := by
    rw [hnext, isNewAttempt]
    simp [advance]
  have hidentity : ¬ (next.sessionId ≠ event.sessionId ∨ next.agentRunId ≠ event.agentRunId ∨
      next.turnId ≠ event.turnId) := by
    rw [hnext]
    simp [advance, h.sessionId, h.agentRunId, h.turnId]
  have hposition : ¬ (event.runAttemptNumber = 0 ∨ event.sequence = 0) := by
    have hnumber := h.number_pos
    have hsequence := h.sequence_pos
    omega
  have hsequence : next.lastEventSequence = event.sequence := by
    rw [hnext]
    rfl
  have hid : next.lastEventId = some event.eventId := by
    rw [hnext]
    rfl
  unfold reduceAgentEvent
  rw [hvalid, h.projects]
  simp only [if_neg hidentity, if_neg hposition, hattempt]
  simp [hsequence, hid]

/-- The attempt number is set together with the attempt. -/
def Positioned (state : RunState) : Prop :=
  state.lastRunAttemptId = none → state.lastRunAttemptNumber = 0

/-- The attempt number and the sequence of the last event, in lexicographic order. -/
def cursor (state : RunState) : ℕ ×ₗ ℕ := toLex (state.lastRunAttemptNumber, state.lastEventSequence)

theorem accept_positioned (state : RunState) (event : AgentEventEnvelope) (isNew : Bool) :
    (state.accept event isNew).1.Positioned := by
  obtain ⟨_, _, _, _, _, hnext, -, -⟩ := state.accept_eq event isNew
  rw [hnext]
  intro hnone
  cases hnone

/-- How an accepted event moves on: within the attempt of the cursor, or to a later one. -/
theorem Accepts.moves {state : RunState} {event : AgentEventEnvelope} {isNew : Bool}
    (h : state.Accepts event isNew) (hpositioned : state.Positioned) :
    (isNew = true ∧ state.lastRunAttemptNumber < event.runAttemptNumber) ∨
      (isNew = false ∧ event.runAttemptNumber = state.lastRunAttemptNumber ∧
        state.lastRunAttemptId = some event.runAttemptId ∧
        state.lastEventSequence < event.sequence) := by
  have hattempt := h.attempt
  unfold isNewAttempt at hattempt
  cases hlast : state.lastRunAttemptId with
  | none =>
    rw [hlast] at hattempt
    obtain rfl := Except.ok.inj hattempt
    have hnumber := h.number_pos
    rw [hpositioned hlast]
    exact .inl ⟨rfl, hnumber⟩
  | some lastAttemptId =>
    rw [hlast] at hattempt
    simp only at hattempt
    split_ifs at hattempt with hbefore hsame hid
    · obtain rfl := Except.ok.inj hattempt
      rw [not_not] at hid
      exact .inr ⟨rfl, hsame, by rw [hid], h.later rfl⟩
    · obtain rfl := Except.ok.inj hattempt
      exact .inl ⟨rfl, by omega⟩

theorem accept_cursor {state : RunState} {event : AgentEventEnvelope} {isNew : Bool}
    (h : state.Accepts event isNew) (hpositioned : state.Positioned) :
    state.cursor < (state.accept event isNew).1.cursor := by
  obtain ⟨_, _, _, _, _, hnext, -, -⟩ := state.accept_eq event isNew
  rw [hnext, cursor, cursor, Prod.Lex.lt_iff]
  rcases h.moves hpositioned with ⟨-, hlater⟩ | ⟨-, hsame, -, hlater⟩
  · exact .inl hlater
  · exact .inr ⟨hsame.symm, hlater⟩

/-- The projection of a list of events, refused ones among them. -/
def project (state : RunState) (events : List AgentEventEnvelope) : RunState :=
  events.foldl (fun state event => (state.reduceAgentEvent event).1) state

/-- The events that a projection accepts. -/
def appliedEvents (state : RunState) : List AgentEventEnvelope → List AgentEventEnvelope
  | [] => []
  | event :: rest =>
    match state.reduceAgentEvent event with
    | (next, .error _) => next.appliedEvents rest
    | (next, .ok .duplicate) => next.appliedEvents rest
    | (next, .ok _) => event :: next.appliedEvents rest

/-- The events of each attempt are numbered 1, 2, … -/
def GapFree (events : List AgentEventEnvelope) : Prop :=
  ∀ number, ∃ count, (events.filter (·.runAttemptNumber = number)).map (·.sequence) =
    List.range' 1 count

/-- What a state says of the events applied. -/
structure Reflects (state : RunState) (events : List AgentEventEnvelope) : Prop where
  positioned : state.Positioned
  bounded : ∀ event ∈ events, event.runAttemptNumber ≤ state.lastRunAttemptNumber
  gapFree : state.projectionStatus = .current → GapFree events
  current : state.projectionStatus = .current →
    (events.filter (·.runAttemptNumber = state.lastRunAttemptNumber)).map (·.sequence) =
      List.range' 1 state.lastEventSequence

theorem pending_reflects (request : AgentRunRequest) : (pending request).Reflects [] where
  positioned := fun _ => rfl
  bounded := fun _ h => absurd h List.not_mem_nil
  gapFree := fun _ _ => ⟨0, rfl⟩
  current := fun _ => rfl

theorem Reflects.degrade {state : RunState} {events : List AgentEventEnvelope}
    (h : state.Reflects events) : state.degrade.Reflects events where
  positioned := h.positioned
  bounded := h.bounded
  gapFree := fun hcurrent => nomatch hcurrent
  current := fun hcurrent => nomatch hcurrent

theorem Reflects.accept {state : RunState} {events : List AgentEventEnvelope}
    {event : AgentEventEnvelope} {isNew : Bool} (h : state.Reflects events)
    (haccepts : state.Accepts event isNew) :
    (state.accept event isNew).1.Reflects (events ++ [event]) := by
  obtain ⟨projectionStatus, _, _, _, _, hnext, hprojection, -⟩ := state.accept_eq event isNew
  have hmoves := haccepts.moves h.positioned
  have hnumber : (state.accept event isNew).1.lastRunAttemptNumber = event.runAttemptNumber := by
    rw [hnext]
    rfl
  have hsequence : (state.accept event isNew).1.lastEventSequence = event.sequence := by
    rw [hnext]
    rfl
  have hclean : (state.accept event isNew).1.projectionStatus = .current →
      state.projectionStatus = .current ∧ state.hadGap event isNew = false := by
    intro hcurrent
    rw [hnext] at hcurrent
    rcases hprojection with hdegraded | ⟨hsame, hgap⟩
    · rw [show projectionStatus = .current from hcurrent] at hdegraded
      cases hdegraded
    · exact ⟨hsame.symm.trans hcurrent, hgap⟩
  have hle : ∀ earlier ∈ events, earlier.runAttemptNumber ≤ event.runAttemptNumber := by
    intro earlier hearlier
    have hbounded := h.bounded earlier hearlier
    rcases hmoves with ⟨-, hlater⟩ | ⟨-, hsame, -, -⟩
    · omega
    · omega
  have hattempt (hcurrent : (state.accept event isNew).1.projectionStatus = .current) :
      ((events ++ [event]).filter (·.runAttemptNumber = event.runAttemptNumber)).map (·.sequence) =
        List.range' 1 event.sequence := by
    obtain ⟨hbefore, hgap⟩ := hclean hcurrent
    rw [List.filter_append, List.map_append, List.filter_singleton]
    simp only [decide_true, cond_true, List.map_singleton]
    rcases hmoves with ⟨rfl, hlater⟩ | ⟨rfl, hsame, -, -⟩
    · -- the attempt begins, and begins with 1
      have hnone : events.filter (·.runAttemptNumber = event.runAttemptNumber) = [] := by
        rw [List.filter_eq_nil_iff]
        intro earlier hearlier
        have hbounded := h.bounded earlier hearlier
        simp only [decide_eq_true_eq]
        omega
      have hone : event.sequence = 1 := by
        simp only [hadGap, if_true, Bool.or_eq_false_iff, decide_eq_false_iff_not, not_not] at hgap
        exact hgap.1
      rw [hnone, hone]
      rfl
    · have hone : event.sequence = state.lastEventSequence + 1 := by
        simpa [hadGap] using hgap
      rw [hsame, h.current hbefore, hone, List.range'_concat]
      simp [Nat.add_comm]
  refine ⟨accept_positioned state event isNew, ?_, ?_, ?_⟩
  · intro other hother
    rw [hnumber]
    rcases List.mem_append.mp hother with hearlier | hlast
    · exact hle other hearlier
    · rw [List.mem_singleton.mp hlast]
  · intro hcurrent number
    by_cases hsame : number = event.runAttemptNumber
    · exact ⟨event.sequence, by rw [hsame]; exact hattempt hcurrent⟩
    · obtain ⟨count, hcount⟩ := h.gapFree (hclean hcurrent).1 number
      refine ⟨count, ?_⟩
      rw [List.filter_append, List.map_append, hcount, List.filter_singleton]
      simp [Ne.symm hsame]
  · intro hcurrent
    rw [hnumber, hsequence]
    exact hattempt hcurrent

/-- The events applied by a run stay reflected. -/
theorem Reflects.project {state : RunState} {seen : List AgentEventEnvelope}
    (h : state.Reflects seen) (events : List AgentEventEnvelope) :
    (state.project events).Reflects (seen ++ state.appliedEvents events) := by
  induction events generalizing state seen with
  | nil =>
    rw [appliedEvents, List.append_nil]
    exact h
  | cons event rest ih =>
    rw [appliedEvents]
    change ((state.reduceAgentEvent event).1.project rest).Reflects _
    rcases state.reduceAgentEvent_cases event with ⟨error, hr⟩ | ⟨error, hr⟩ | ⟨hr, -⟩ |
      ⟨isNew, haccepts, hr⟩
    · rw [hr]
      exact ih h
    · rw [hr]
      exact ih h.degrade
    · rw [hr]
      exact ih h
    · obtain ⟨_, _, _, _, _, -, -, hne⟩ := state.accept_eq event isNew
      have hlater := ih (h.accept haccepts)
      rw [List.append_assoc, List.singleton_append] at hlater
      rw [hr]
      cases happly : (state.accept event isNew).2 with
      | duplicate => exact absurd happly hne
      | applied => exact hlater
      | appliedDegraded => exact hlater
      | ignoredTerminalRegression => exact hlater

/-- An accepted event moves the cursor on. -/
theorem reduceAgentEvent_cursor {state : RunState} {event : AgentEventEnvelope}
    {apply : ReducerApply} (hpositioned : state.Positioned)
    (hok : (state.reduceAgentEvent event).2 = .ok apply) (hne : apply ≠ .duplicate) :
    state.cursor < (state.reduceAgentEvent event).1.cursor := by
  rcases state.reduceAgentEvent_cases event with ⟨_, hr⟩ | ⟨_, hr⟩ | ⟨hr, -⟩ |
    ⟨isNew, haccepts, hr⟩
  · rw [hr] at hok
    cases hok
  · rw [hr] at hok
    cases hok
  · rw [hr] at hok
    exact absurd (Except.ok.inj hok).symm hne
  · rw [hr]
    exact accept_cursor haccepts hpositioned

/-- A refusal leaves all but the projection status, an accepted event moves the cursor on, the event
just applied is a duplicate, a degraded projection stays degraded, and a current one has no gap. -/
theorem reduceAgentEvent_safe :
    (∀ (state : RunState) event error, (state.reduceAgentEvent event).2 = .error error →
      (state.reduceAgentEvent event).1 =
        { state with projectionStatus := (state.reduceAgentEvent event).1.projectionStatus }) ∧
    (∀ request events, ((pending request).project events).Positioned) ∧
    (∀ (state : RunState) event apply, state.Positioned →
      (state.reduceAgentEvent event).2 = .ok apply → apply ≠ .duplicate →
      state.cursor < (state.reduceAgentEvent event).1.cursor) ∧
    (∀ request events event apply,
      (((pending request).project events).reduceAgentEvent event).2 = .ok apply →
      apply ≠ .duplicate → ((pending request).project events).cursor <
        (((pending request).project events).reduceAgentEvent event).1.cursor) ∧
    (∀ (state : RunState) event apply, (state.reduceAgentEvent event).2 = .ok apply →
      (state.reduceAgentEvent event).1.reduceAgentEvent event =
        ((state.reduceAgentEvent event).1, .ok .duplicate)) ∧
    (∀ (state : RunState) events, state.projectionStatus = .projectionDegraded →
      (state.project events).projectionStatus = .projectionDegraded) ∧
    (∀ request events, ((pending request).project events).projectionStatus = .current →
      GapFree ((pending request).appliedEvents events)) := by
  refine ⟨?_, ?_, ?_, ?_, ?_, ?_, ?_⟩
  · intro state event error herror
    rcases state.reduceAgentEvent_cases event with ⟨_, hr⟩ | ⟨_, hr⟩ | ⟨hr, -⟩ | ⟨isNew, -, hr⟩
    · rw [hr]
    · rw [hr]
      rfl
    · rw [hr] at herror
      cases herror
    · rw [hr] at herror
      cases herror
  · intro request events
    exact ((pending_reflects request).project events).positioned
  · exact fun state event apply => reduceAgentEvent_cursor
  · exact fun request events event apply =>
      reduceAgentEvent_cursor ((pending_reflects request).project events).positioned
  · intro state event apply hok
    rcases state.reduceAgentEvent_cases event with ⟨_, hr⟩ | ⟨_, hr⟩ | ⟨hr, -⟩ |
      ⟨isNew, haccepts, hr⟩
    · rw [hr] at hok
      cases hok
    · rw [hr] at hok
      cases hok
    · rw [hr]
      exact hr
    · rw [hr]
      exact reduceAgentEvent_accept haccepts
  · intro state events hdegraded
    exact @foldl_invariant _ _ _ (fun state : RunState => state.projectionStatus = .projectionDegraded)
      (fun _ event h => reduceAgentEvent_degraded h event) state hdegraded events
  · intro request events hcurrent
    have hreflects := (pending_reflects request).project events
    rw [List.nil_append] at hreflects
    exact hreflects.gapFree hcurrent

/-- The first event of the first attempt of run 2. -/
def startedEvent : AgentEventEnvelope where
  schemaVersion := 1
  payloadVersion := 1
  eventId := 10
  sessionId := 1
  agentRunId := 2
  turnId := 3
  runAttemptId := 4
  runAttemptNumber := 1
  sequence := 1
  correlationId := 5
  orchestrationRunId := none
  orchestrationNodeExecutionId := none
  timestamp := 100
  nativeRefs := []
  payload := .lifecycleChanged .running

theorem reduceAgentEvent_safe_started :
    ((pending ⟨1, 2, 3, 0⟩).reduceAgentEvent startedEvent).2 = .ok .applied ∧
      (pending ⟨1, 2, 3, 0⟩).cursor <
        ((pending ⟨1, 2, 3, 0⟩).reduceAgentEvent startedEvent).1.cursor ∧
      GapFree ((pending ⟨1, 2, 3, 0⟩).appliedEvents [startedEvent, startedEvent]) :=
  ⟨by rfl, reduceAgentEvent_safe.2.2.2.1 _ [] _ .applied (by rfl) (by decide),
    reduceAgentEvent_safe.2.2.2.2.2.2 _ _ (by rfl)⟩

end RunState

end VibeKanban.Agent
