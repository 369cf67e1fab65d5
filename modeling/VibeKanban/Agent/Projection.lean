import VibeKanban.Agent.Reducer
import VibeKanban.Lib.Machine
import VibeKanban.Lib.Table

/-! The rows of AgentRuns and their attempts, as the stored events project onto them. -/
namespace VibeKanban.Agent
open Lib
open VibeKanban.Runtime (AgentRunStatus)

structure AgentRunRow where
  id : ℕ
  sessionId : ℕ
  turnId : ℕ
  status : AgentRunStatus
  projectionStatus : ProjectionStatus
  updatedAt : ℕ
  deriving DecidableEq, Repr

structure RunAttemptRow where
  id : ℕ
  agentRunId : ℕ
  turnId : ℕ
  attemptNumber : ℕ
  status : AgentRunStatus
  projectionStatus : ProjectionStatus
  finishedAt : Option ℕ
  updatedAt : ℕ
  deriving DecidableEq, Repr

/-- Where a call of `mark_projection_degraded` stands: it has read a state and is to write it back, or
has written it and is to mark the run. -/
inductive Degrading where
  | read (state : RunState)
  | written (agentRunId : ℕ)
  deriving DecidableEq, Repr

/-- The tables, and the calls of `mark_projection_degraded` under way, which hold no lock. -/
structure AgentRuntimeStore where
  events : List AgentEventEnvelope
  states : List RunState
  runs : List AgentRunRow
  attempts : List RunAttemptRow
  degrading : List Degrading
  deriving DecidableEq, Repr

inductive AgentRuntimePersistenceError where
  | database
  | invalidVersion (error : ContractVersionError)
  | invalidFirstAttempt
  | idempotencyConflict (entity key : String)
  | serialization
  | reducer (error : ReducerError)
  | missingState (agentRunId : ℕ)
  deriving DecidableEq, Repr

def maxSequence : ℕ := 2 ^ 63 - 1

/-- `UPDATE agent_run_attempts` with the state of the run. -/
def RunAttemptRow.project (state : RunState) (row : RunAttemptRow) : RunAttemptRow :=
  { row with
    status := state.status
    projectionStatus := state.projectionStatus
    finishedAt := if state.status.isTerminal && row.finishedAt.isNone then some state.updatedAt
      else row.finishedAt
    updatedAt := state.updatedAt }

def AgentRunRow.project (state : RunState) (row : AgentRunRow) : AgentRunRow :=
  { row with
    status := state.status
    projectionStatus := state.projectionStatus
    updatedAt := state.updatedAt }

namespace AgentRuntimeStore

def empty : AgentRuntimeStore := ⟨[], [], [], [], []⟩

def newAttempt (request : AgentRunRequest) (runAttemptId attemptNumber now : ℕ) : RunAttemptRow :=
  ⟨runAttemptId, request.agentRunId, request.turnId, attemptNumber, .pending, .current, none, now⟩

/-- A new run with its first attempt; the identities are primary keys. -/
def persistBeforeLaunch (store : AgentRuntimeStore) (request : AgentRunRequest)
    (runAttemptId attemptNumber now : ℕ) :
    Except AgentRuntimePersistenceError AgentRuntimeStore :=
  if attemptNumber ≠ 1 then .error .invalidFirstAttempt
  else if store.runs.any (fun run => run.id = request.agentRunId ∨ run.turnId = request.turnId) ∨
      store.states.any (·.agentRunId = request.agentRunId) ∨
      store.attempts.any (·.id = runAttemptId) then .error .database
  else .ok { store with
    states := store.states ++ [.pending request]
    runs := store.runs ++
      [⟨request.agentRunId, request.sessionId, request.turnId, .pending, .current, now⟩]
    attempts := store.attempts ++ [newAttempt request runAttemptId attemptNumber now] }

/-- A later attempt of a run. -/
def persistRetryAttemptBeforeLaunch (store : AgentRuntimeStore) (request : AgentRunRequest)
    (runAttemptId attemptNumber now : ℕ) :
    Except AgentRuntimePersistenceError AgentRuntimeStore :=
  if attemptNumber ≤ 1 then .error .invalidFirstAttempt
  else match store.runs.find? (·.id = request.agentRunId) with
  | none => .error (.missingState request.agentRunId)
  | some run =>
    if run.sessionId ≠ request.sessionId ∨ run.turnId ≠ request.turnId then
      .error (.idempotencyConflict "agent run" (toString request.agentRunId))
    else if store.attempts.any (fun row => row.id = runAttemptId ∨
        (row.agentRunId = request.agentRunId ∧ row.attemptNumber = attemptNumber)) then
      .error .database
    else .ok { store with
      attempts := store.attempts ++ [newAttempt request runAttemptId attemptNumber now] }

/-- The rows that a stored event refers to. -/
def refers (store : AgentRuntimeStore) (event : AgentEventEnvelope) : Bool :=
  store.runs.any (fun run => run.id = event.agentRunId ∧ run.sessionId = event.sessionId ∧
      run.turnId = event.turnId) &&
    store.attempts.any (fun row => row.id = event.runAttemptId ∧
      row.agentRunId = event.agentRunId ∧ row.turnId = event.turnId ∧
      row.attemptNumber = event.runAttemptNumber)

/-- The rows behind an event that led to a state. -/
def projected (store : AgentRuntimeStore) (event : AgentEventEnvelope) (state : RunState) :
    AgentRuntimeStore where
  events := store.events ++ [event]
  states := updateWhere (fun row => row.agentRunId = event.agentRunId) (fun _ => state) store.states
  runs := updateWhere (fun row => row.id = event.agentRunId) (.project state) store.runs
  attempts := updateWhere (fun row => row.id = event.runAttemptId) (.project state) store.attempts
  degrading := store.degrading

/-- Store an event and project it in one transaction. -/
def appendAndProject (store : AgentRuntimeStore) (event : AgentEventEnvelope) :
    Except AgentRuntimePersistenceError (ReducerApply × AgentRuntimeStore) :=
  match event.validateForProjection with
  | .error error => .error (.invalidVersion error)
  | .ok () =>
  if maxSequence < event.sequence then .error .serialization
  else match store.events.find? (·.eventId = event.eventId) with
  | some existing =>
    if existing = event then .ok (.duplicate, store)
    else .error (.idempotencyConflict "agent event" (toString event.eventId))
  | none =>
  match store.events.find? (fun stored => stored.runAttemptId = event.runAttemptId ∧
      stored.sequence = event.sequence) with
  | some existing =>
    if existing = event then .ok (.duplicate, store)
    else .error (.idempotencyConflict "agent event sequence"
      (toString event.runAttemptId ++ ":" ++ toString event.sequence))
  | none =>
  match store.states.find? (·.agentRunId = event.agentRunId) with
  | none => .error (.missingState event.agentRunId)
  | some state =>
  match state.reduceAgentEvent event with
  | (_, .error error) => .error (.reducer error)
  | (next, .ok apply) =>
    if store.refers event then .ok (apply, store.projected event next) else .error .database

/-- A call reads the state of its run. -/
def markProjectionDegraded (store : AgentRuntimeStore) (agentRunId : ℕ) :
    Except AgentRuntimePersistenceError AgentRuntimeStore :=
  match store.states.find? (·.agentRunId = agentRunId) with
  | none => .error (.missingState agentRunId)
  | some state => .ok { store with degrading := store.degrading ++ [.read state] }

/-- The state of a run is written back as a call has read it, but degraded. -/
def writeDegraded (store : AgentRuntimeStore) (call : ℕ) (state : RunState) : AgentRuntimeStore :=
  { store with
    states := updateWhere (fun row => row.agentRunId = state.agentRunId) (fun _ => state.degrade)
      store.states
    degrading := store.degrading.set call (.written state.agentRunId) }

/-- The run itself is marked. -/
def markRunDegraded (store : AgentRuntimeStore) (call agentRunId now : ℕ) : AgentRuntimeStore :=
  { store with
    runs := updateWhere (fun row => row.id = agentRunId)
      (fun row => { row with projectionStatus := .projectionDegraded, updatedAt := now }) store.runs
    degrading := store.degrading.eraseIdx call }

/-- A call takes its next statement, each of them committed by itself. -/
def degradeNext (store : AgentRuntimeStore) (call now : ℕ) : Option AgentRuntimeStore :=
  store.degrading[call]?.map fun
    | .read state => store.writeDegraded call state
    | .written agentRunId => store.markRunDegraded call agentRunId now

end AgentRuntimeStore

inductive RuntimeWrite where
  | persistBeforeLaunch (request : AgentRunRequest) (runAttemptId attemptNumber now : ℕ)
  | persistRetryAttemptBeforeLaunch (request : AgentRunRequest)
    (runAttemptId attemptNumber now : ℕ)
  | appendAndProject (event : AgentEventEnvelope)
  | markProjectionDegraded (agentRunId : ℕ)
  | degradeNext (call now : ℕ)

namespace AgentRuntimeStore

/-- A write that succeeds; the others leave the rows as they are. -/
def step (store : AgentRuntimeStore) : RuntimeWrite → Option AgentRuntimeStore
  | .persistBeforeLaunch request runAttemptId attemptNumber now =>
    (store.persistBeforeLaunch request runAttemptId attemptNumber now).toOption
  | .persistRetryAttemptBeforeLaunch request runAttemptId attemptNumber now =>
    (store.persistRetryAttemptBeforeLaunch request runAttemptId attemptNumber now).toOption
  | .appendAndProject event => (store.appendAndProject event).toOption.map (·.2)
  | .markProjectionDegraded agentRunId => (store.markProjectionDegraded agentRunId).toOption
  | .degradeNext call now => store.degradeNext call now

/-- What the call is to write back is the state of its run, the projection status aside. -/
def ReadsCurrent (store : AgentRuntimeStore) (call : ℕ) : Prop :=
  ∀ read, store.degrading[call]? = some (.read read) →
    ∀ state ∈ store.states, state.agentRunId = read.agentRunId → state.degrade = read.degrade

def eventsOf (store : AgentRuntimeStore) (agentRunId : ℕ) : List AgentEventEnvelope :=
  store.events.filter (·.agentRunId = agentRunId)

def eventsOfAttempt (store : AgentRuntimeStore) (runAttemptId : ℕ) : List AgentEventEnvelope :=
  store.events.filter (·.runAttemptId = runAttemptId)

end AgentRuntimeStore

/-- The first lifecycle event that ends an attempt, otherwise the last one. -/
def attemptStatus (events : List AgentEventEnvelope) : AgentRunStatus :=
  outcome AgentRunStatus.isTerminal .pending (events.filterMap (·.payload.lifecycle))

def AgentEventEnvelope.isFinish (event : AgentEventEnvelope) : Bool :=
  event.payload.lifecycle.any AgentRunStatus.isTerminal

def attemptFinish (events : List AgentEventEnvelope) : Option ℕ :=
  (events.find? (·.isFinish)).map (·.timestamp)

def highestAttempt (events : List AgentEventEnvelope) : ℕ :=
  (events.map (·.runAttemptNumber)).foldl max 0

def currentAttempt (events : List AgentEventEnvelope) : List AgentEventEnvelope :=
  events.filter (·.runAttemptNumber = highestAttempt events)

/-- The status of a run is that of its highest attempt, and each attempt row is made by the events of the
attempt alone. -/
structure AttemptSemantics (store : AgentRuntimeStore) : Prop where
  state : ∀ state ∈ store.states,
    state.status = attemptStatus (currentAttempt (store.eventsOf state.agentRunId))
  run : ∀ run ∈ store.runs, run.status = attemptStatus (currentAttempt (store.eventsOf run.id))
  attempt : ∀ row ∈ store.attempts, row.status = attemptStatus (store.eventsOfAttempt row.id) ∧
    row.finishedAt = attemptFinish (store.eventsOfAttempt row.id)

/-- An event that opens a later attempt announces its status, unless nothing has been announced yet; no
state is written back that has changed since it was read. -/
def Announced (store : AgentRuntimeStore) : RuntimeWrite → Prop
  | .appendAndProject event => ∀ state ∈ store.states, state.agentRunId = event.agentRunId →
      state.lastRunAttemptNumber < event.runAttemptNumber →
        event.payload.lifecycle ≠ none ∨ state.status = .pending
  | .degradeNext call _ => store.ReadsCurrent call
  | _ => True

section Attempts
variable (events : List AgentEventEnvelope) (event : AgentEventEnvelope)

theorem attemptStatus_concat : attemptStatus (events ++ [event]) =
    match event.payload.lifecycle with
    | none => attemptStatus events
    | some status =>
      if (attemptStatus events).isTerminal then attemptStatus events else status := by
  rw [attemptStatus, List.filterMap_append]
  cases hlifecycle : event.payload.lifecycle with
  | none => simp [hlifecycle, attemptStatus]
  | some status =>
    simp only [List.filterMap_cons, List.filterMap_nil, hlifecycle]
    exact outcome_concat rfl _ status

theorem attemptStatus_ended : (attemptStatus events).isTerminal = events.any (·.isFinish) := by
  have hstart : AgentRunStatus.isTerminal .pending = false := rfl
  rw [attemptStatus, outcome_ends hstart]
  induction events with
  | nil => rfl
  | cons event rest ih =>
    rw [List.any_cons, ← ih, List.filterMap_cons, AgentEventEnvelope.isFinish]
    cases event.payload.lifecycle with
    | none => rfl
    | some status => rfl

theorem attemptFinish_concat : attemptFinish (events ++ [event]) =
    if (attemptStatus (events ++ [event])).isTerminal && (attemptFinish events).isNone then
      some event.timestamp
    else attemptFinish events := by
  rw [attemptStatus_ended, List.any_append, attemptFinish, attemptFinish, List.find?_append]
  cases hfind : events.find? (·.isFinish) with
  | some first => simp
  | none =>
    have hnone : events.any (·.isFinish) = false := by
      rw [List.any_eq_false]
      exact List.find?_eq_none.mp hfind
    cases hfinish : event.isFinish with
    | true => simp [hfinish]
    | false => simp [hfinish, hnone]

theorem highestAttempt_concat :
    highestAttempt (events ++ [event]) = max (highestAttempt events) event.runAttemptNumber := by
  rw [highestAttempt, List.map_append, List.foldl_append]
  rfl

theorem le_highestAttempt {earlier : AgentEventEnvelope} (h : earlier ∈ events) :
    earlier.runAttemptNumber ≤ highestAttempt events := by
  induction events using List.reverseRecOn with
  | nil => cases h
  | append_singleton events last ih =>
    rw [highestAttempt_concat]
    rcases List.mem_append.mp h with hbefore | hlast
    · exact (ih hbefore).trans (Nat.le_max_left _ _)
    · rw [List.mem_singleton.mp hlast]
      exact Nat.le_max_right _ _

theorem currentAttempt_concat (h : highestAttempt events ≤ event.runAttemptNumber) :
    currentAttempt (events ++ [event]) =
      events.filter (·.runAttemptNumber = event.runAttemptNumber) ++ [event] := by
  rw [currentAttempt, highestAttempt_concat, Nat.max_eq_right h, List.filter_append]
  simp

end Attempts

/-- What the rows of a store have in common with its events. -/
structure Tracked (store : AgentRuntimeStore) : Prop extends AttemptSemantics store where
  attempts_unique : (store.attempts.map (·.id)).Nodup
  refers : ∀ event ∈ store.events, ∃ row ∈ store.attempts, row.id = event.runAttemptId ∧
    row.agentRunId = event.agentRunId ∧ row.attemptNumber = event.runAttemptNumber
  owned : ∀ row ∈ store.attempts, ∃ run ∈ store.runs, run.id = row.agentRunId
  positioned : ∀ state ∈ store.states, state.Positioned
  highest : ∀ state ∈ store.states,
    state.lastRunAttemptNumber = highestAttempt (store.eventsOf state.agentRunId)
  current : ∀ state ∈ store.states, ∀ event ∈ store.eventsOf state.agentRunId,
    event.runAttemptNumber = state.lastRunAttemptNumber →
      state.lastRunAttemptId = some event.runAttemptId
  known : ∀ state ∈ store.states, ∀ eventId, state.lastEventId = some eventId →
    ∃ event ∈ store.events, event.eventId = eventId

section Store
variable {store : AgentRuntimeStore} {event : AgentEventEnvelope} {state next : RunState}

theorem Tracked.empty : Tracked .empty := by
  constructor
  · constructor <;> exact fun _ h => absurd h List.not_mem_nil
  · exact List.nodup_nil
  all_goals exact fun _ h => absurd h List.not_mem_nil

theorem Tracked.own (h : Tracked store) (hrefers : store.refers event = true)
    (hcurrent : ∀ earlier ∈ store.eventsOf event.agentRunId,
      earlier.runAttemptNumber = event.runAttemptNumber →
        earlier.runAttemptId = event.runAttemptId) :
    store.eventsOfAttempt event.runAttemptId =
      (store.eventsOf event.agentRunId).filter
        (·.runAttemptNumber = event.runAttemptNumber) := by
  have hrow := (Bool.and_eq_true_iff.mp hrefers).2
  obtain ⟨row, hmem, hsame⟩ := List.any_eq_true.mp hrow
  obtain ⟨hid, hrun, -, hnumber⟩ := of_decide_eq_true hsame
  rw [AgentRuntimeStore.eventsOfAttempt, AgentRuntimeStore.eventsOf, List.filter_filter]
  refine List.filter_congr fun earlier hearlier => ?_
  rw [Bool.eq_iff_iff, Bool.and_eq_true]
  simp only [decide_eq_true_eq]
  constructor
  · intro hattempt
    obtain ⟨other, hother, hotherId, hotherRun, hotherNumber⟩ := h.refers earlier hearlier
    have hunique : other = row :=
      List.inj_on_of_nodup_map h.attempts_unique hother hmem (by rw [hotherId, hattempt, hid])
    rw [← hotherNumber, ← hotherRun, hunique]
    exact ⟨hnumber, hrun⟩
  · rintro ⟨hsameNumber, hsameRun⟩
    exact hcurrent earlier (List.mem_filter.mpr ⟨hearlier, by simpa using hsameRun⟩) hsameNumber

theorem eventsOf_projected (agentRunId : ℕ) : (store.projected event next).eventsOf agentRunId =
    store.eventsOf agentRunId ++ if event.agentRunId = agentRunId then [event] else [] := by
  rw [AgentRuntimeStore.eventsOf, AgentRuntimeStore.projected, List.filter_append,
    List.filter_singleton]
  split_ifs with h
  · simp [h, AgentRuntimeStore.eventsOf]
  · simp [h, AgentRuntimeStore.eventsOf]

theorem eventsOfAttempt_projected (runAttemptId : ℕ) :
    (store.projected event next).eventsOfAttempt runAttemptId =
      store.eventsOfAttempt runAttemptId ++
        if event.runAttemptId = runAttemptId then [event] else [] := by
  rw [AgentRuntimeStore.eventsOfAttempt, AgentRuntimeStore.projected, List.filter_append,
    List.filter_singleton]
  split_ifs with h
  · simp [h, AgentRuntimeStore.eventsOfAttempt]
  · simp [h, AgentRuntimeStore.eventsOfAttempt]

theorem RunState.accept_reaches (state : RunState) (event : AgentEventEnvelope) (isNew : Bool) :
    (state.accept event isNew).1.cursor = toLex (event.runAttemptNumber, event.sequence) ∧
      (state.accept event isNew).1.lastEventId = some event.eventId ∧
      (state.accept event isNew).1.agentRunId = state.agentRunId := by
  obtain ⟨_, _, _, _, _, hnext, -, -⟩ := state.accept_eq event isNew
  rw [hnext]
  exact ⟨rfl, rfl, rfl⟩

theorem mem_projected_states {next row : RunState}
    (h : row ∈ (store.projected event next).states) :
    (∃ old ∈ store.states, old.agentRunId = event.agentRunId ∧ row = next) ∨
      (row ∈ store.states ∧ row.agentRunId ≠ event.agentRunId) := by
  obtain ⟨old, hold, hrow⟩ := List.mem_map.mp h
  split_ifs at hrow with hsame
  · exact .inl ⟨old, hold, by simpa using hsame, hrow.symm⟩
  · rw [← hrow]
    exact .inr ⟨hold, by simpa using hsame⟩

theorem eventsOf_projected_other {agentRunId : ℕ} (h : agentRunId ≠ event.agentRunId) :
    (store.projected event next).eventsOf agentRunId = store.eventsOf agentRunId := by
  rw [eventsOf_projected, if_neg h.symm, List.append_nil]

/-- A state that an event leaves: the event is of the latest attempt of its run, and the state stands
for what this attempt has reported. -/
structure Follows (store : AgentRuntimeStore) (event : AgentEventEnvelope) (next : RunState) : Prop where
  agentRunId : next.agentRunId = event.agentRunId
  number : next.lastRunAttemptNumber = event.runAttemptNumber
  attemptId : next.lastRunAttemptId = some event.runAttemptId
  eventId : next.lastEventId = some event.eventId
  updatedAt : next.updatedAt = event.timestamp
  latest : highestAttempt (store.eventsOf event.agentRunId) ≤ event.runAttemptNumber
  own : store.eventsOfAttempt event.runAttemptId =
    (store.eventsOf event.agentRunId).filter (·.runAttemptNumber = event.runAttemptNumber)
  status : next.status = attemptStatus (store.eventsOfAttempt event.runAttemptId ++ [event])

theorem Follows.currentAttempt_projected (hf : Follows store event next) :
    currentAttempt ((store.projected event next).eventsOf event.agentRunId) =
      store.eventsOfAttempt event.runAttemptId ++ [event] := by
  rw [eventsOf_projected, if_pos rfl, currentAttempt_concat _ _ hf.latest, hf.own]

theorem Tracked.follows (h : Tracked store) (hstate : state ∈ store.states)
    (hrun : state.agentRunId = event.agentRunId) {isNew : Bool} (haccepts : state.Accepts event isNew)
    (hrefers : store.refers event = true)
    (hannounced : state.lastRunAttemptNumber < event.runAttemptNumber →
      event.payload.lifecycle ≠ none ∨ state.status = .pending) :
    Follows store event (state.accept event isNew).1 := by
  have hmoves := haccepts.moves (h.positioned state hstate)
  have hhighest := h.highest state hstate
  have hcurrent := h.current state hstate
  have hstatus := h.state state hstate
  rw [hrun] at hhighest hcurrent hstatus
  have hle : highestAttempt (store.eventsOf event.agentRunId) ≤ event.runAttemptNumber := by
    rw [← hhighest]
    rcases hmoves with ⟨-, hlater⟩ | ⟨-, hsame, -, -⟩
    · omega
    · omega
  have hown : store.eventsOfAttempt event.runAttemptId = (store.eventsOf event.agentRunId).filter
      (·.runAttemptNumber = event.runAttemptNumber) := by
    apply h.own hrefers
    intro earlier hearlier hsameNumber
    rcases hmoves with ⟨-, hlater⟩ | ⟨-, hsame, hattempt, -⟩
    · have hbounded := le_highestAttempt _ hearlier
      omega
    · rw [hcurrent earlier hearlier (by omega)] at hattempt
      exact Option.some.inj hattempt
  have hmade : state.nextStatus isNew event.payload =
      attemptStatus (store.eventsOfAttempt event.runAttemptId ++ [event]) := by
    rw [attemptStatus_concat, RunState.nextStatus, hown]
    rcases hmoves with ⟨rfl, hlater⟩ | ⟨rfl, hsame, -, -⟩
    · -- nothing of a new attempt is stored yet
      have hnone : (store.eventsOf event.agentRunId).filter
          (·.runAttemptNumber = event.runAttemptNumber) = [] := by
        rw [List.filter_eq_nil_iff]
        intro earlier hearlier
        have hbounded := le_highestAttempt _ hearlier
        simp only [decide_eq_true_eq]
        omega
      rw [hnone]
      cases hlifecycle : event.payload.lifecycle with
      | none => exact (hannounced hlater).resolve_left (not_not_intro hlifecycle)
      | some status => rfl
    · rw [hsame, hhighest, ← currentAttempt, ← hstatus]
      cases event.payload.lifecycle with
      | none => rfl
      | some status => rfl
  obtain ⟨_, _, _, _, _, hnext, -, -⟩ := state.accept_eq event isNew
  rw [hnext]
  exact ⟨hrun, rfl, rfl, rfl, rfl, hle, hown, hmade⟩

theorem AttemptSemantics.projected (h : AttemptSemantics store) (hf : Follows store event next) :
    AttemptSemantics (store.projected event next) := by
  constructor
  case state =>
    intro row hrow
    rcases mem_projected_states hrow with ⟨_, _, _, rfl⟩ | ⟨hold, hother⟩
    · rw [hf.agentRunId, hf.currentAttempt_projected]
      exact hf.status
    · rw [eventsOf_projected_other hother]
      exact h.state row hold
  case run =>
    intro run hrun
    rcases mem_updateWhere.mp hrun with ⟨old, _, hid, rfl⟩ | ⟨hold, hother⟩
    · have hsame : (old.project next).id = event.agentRunId := of_decide_eq_true hid
      rw [hsame, hf.currentAttempt_projected]
      exact hf.status
    · rw [eventsOf_projected_other (of_decide_eq_false hother)]
      exact h.run run hold
  case attempt =>
    intro row hrow
    rw [eventsOfAttempt_projected]
    rcases mem_updateWhere.mp hrow with ⟨old, hold, hid, rfl⟩ | ⟨hold, hother⟩
    · have hsame : old.id = event.runAttemptId := of_decide_eq_true hid
      have hfinished := (h.attempt old hold).2
      rw [hsame] at hfinished
      rw [show (old.project next).id = event.runAttemptId from hsame, if_pos rfl]
      refine ⟨hf.status, ?_⟩
      rw [attemptFinish_concat, ← hf.status, ← hfinished, ← hf.updatedAt]
      rfl
    · rw [if_neg (Ne.symm (of_decide_eq_false hother)), List.append_nil]
      exact h.attempt row hold

theorem Tracked.projected (h : Tracked store) (hrefers : store.refers event = true)
    (hf : Follows store event next) : Tracked (store.projected event next) := by
  refine ⟨h.toAttemptSemantics.projected hf, ?_, ?_, ?_, ?_, ?_, ?_, ?_⟩
  · have hids : (store.projected event next).attempts.map (·.id) = store.attempts.map (·.id) :=
      map_updateWhere (f := RunAttemptRow.project next) (fun _ => rfl) _
    rw [hids]
    exact h.attempts_unique
  · intro stored hstored
    have hrow : ∃ row ∈ store.attempts, row.id = stored.runAttemptId ∧
        row.agentRunId = stored.agentRunId ∧ row.attemptNumber = stored.runAttemptNumber := by
      rcases List.mem_append.mp hstored with hearlier | hlast
      · exact h.refers stored hearlier
      · obtain ⟨row, hmem, hsame⟩ := List.any_eq_true.mp (Bool.and_eq_true_iff.mp hrefers).2
        obtain ⟨hid, hrunId, -, hnumber⟩ := of_decide_eq_true hsame
        rw [List.mem_singleton.mp hlast]
        exact ⟨row, hmem, hid, hrunId, hnumber⟩
    obtain ⟨row, hmem, hsame⟩ := hrow
    exact exists_mem_updateWhere (fun _ hkept => hkept) hmem hsame
  · intro row hrow
    have howner : ∃ run ∈ store.runs, run.id = row.agentRunId := by
      rcases mem_updateWhere.mp hrow with ⟨old, hold, _, rfl⟩ | ⟨hold, _⟩
      · exact h.owned old hold
      · exact h.owned row hold
    obtain ⟨run, hmem, hid⟩ := howner
    exact exists_mem_updateWhere (fun _ hkept => hkept) hmem hid
  · intro row hrow
    rcases mem_projected_states hrow with ⟨_, _, _, rfl⟩ | ⟨hold, _⟩
    · intro hnone
      rw [hf.attemptId] at hnone
      cases hnone
    · exact h.positioned row hold
  · intro row hrow
    rcases mem_projected_states hrow with ⟨_, _, _, rfl⟩ | ⟨hold, hother⟩
    · rw [hf.agentRunId, eventsOf_projected, if_pos rfl, highestAttempt_concat,
        Nat.max_eq_right hf.latest]
      exact hf.number
    · rw [eventsOf_projected_other hother]
      exact h.highest row hold
  · intro row hrow stored hstored
    rcases mem_projected_states hrow with ⟨_, _, _, rfl⟩ | ⟨hold, hother⟩
    · rw [hf.agentRunId, eventsOf_projected, if_pos rfl] at hstored
      rw [hf.number, hf.attemptId]
      intro hnumber
      rcases List.mem_append.mp hstored with hearlier | hlast
      · have hin : stored ∈ store.eventsOfAttempt event.runAttemptId := by
          rw [hf.own]
          exact List.mem_filter.mpr ⟨hearlier, by simpa using hnumber⟩
        have hattempt := (List.mem_filter.mp hin).2
        rw [of_decide_eq_true hattempt]
      · rw [List.mem_singleton.mp hlast]
    · rw [eventsOf_projected_other hother] at hstored
      exact h.current row hold stored hstored
  · intro row hrow eventId hknown
    rcases mem_projected_states hrow with ⟨_, _, _, rfl⟩ | ⟨hold, _⟩
    · rw [hf.eventId] at hknown
      exact ⟨event, List.mem_append_right _ (List.mem_singleton_self event), Option.some.inj hknown⟩
    · obtain ⟨stored, hstored, hid⟩ := h.known row hold eventId hknown
      exact ⟨stored, List.mem_append_left _ hstored, hid⟩

theorem appendAndProject_cases {apply : ReducerApply} {store' : AgentRuntimeStore}
    (hknown : ∀ state ∈ store.states, ∀ eventId, state.lastEventId = some eventId →
      ∃ event ∈ store.events, event.eventId = eventId)
    (happend : store.appendAndProject event = .ok (apply, store')) :
    (store' = store ∧ event ∈ store.events) ∨ ∃ state ∈ store.states,
      state.agentRunId = event.agentRunId ∧ event.eventId ∉ store.events.map (·.eventId) ∧
      store.refers event = true ∧ ∃ isNew, state.Accepts event isNew ∧
        store' = store.projected event (state.accept event isNew).1 := by
  unfold AgentRuntimeStore.appendAndProject at happend
  cases hvalid : event.validateForProjection with
  | error error =>
    rw [hvalid] at happend
    cases happend
  | ok _ =>
  rw [hvalid] at happend
  simp only at happend
  by_cases hlarge : maxSequence < event.sequence
  · rw [if_pos hlarge] at happend
    cases happend
  rw [if_neg hlarge] at happend
  cases hid : store.events.find? (·.eventId = event.eventId) with
  | some existing =>
    rw [hid] at happend
    simp only at happend
    split_ifs at happend with hsame
    exact .inl ⟨(congrArg Prod.snd (Except.ok.inj happend)).symm,
      hsame ▸ List.mem_of_find?_eq_some hid⟩
  | none =>
  rw [hid] at happend
  simp only at happend
  cases hposition : store.events.find? (fun stored => stored.runAttemptId = event.runAttemptId ∧
      stored.sequence = event.sequence) with
  | some existing =>
    rw [hposition] at happend
    simp only at happend
    split_ifs at happend with hsame
    exact .inl ⟨(congrArg Prod.snd (Except.ok.inj happend)).symm,
      hsame ▸ List.mem_of_find?_eq_some hposition⟩
  | none =>
  rw [hposition] at happend
  simp only at happend
  cases hstate : store.states.find? (·.agentRunId = event.agentRunId) with
  | none =>
    rw [hstate] at happend
    cases happend
  | some state =>
  rw [hstate] at happend
  simp only at happend
  have hmem := List.mem_of_find?_eq_some hstate
  have hrun : state.agentRunId = event.agentRunId := by simpa using List.find?_some hstate
  rcases state.reduceAgentEvent_cases event with ⟨error, hr⟩ | ⟨error, hr⟩ | ⟨hr, hlast⟩ |
    ⟨isNew, haccepts, hr⟩
  · rw [hr] at happend
    cases happend
  · rw [hr] at happend
    cases happend
  · -- an event that the run has seen last is stored
    obtain ⟨stored, hstored, hsame⟩ := hknown state hmem event.eventId hlast
    exact absurd hsame (by simpa using List.find?_eq_none.mp hid stored hstored)
  · rw [hr] at happend
    simp only at happend
    split_ifs at happend with hrefers
    have hfresh : event.eventId ∉ store.events.map (·.eventId) := by
      intro hstored
      obtain ⟨stored, hmem, hsame⟩ := List.mem_map.mp hstored
      exact absurd hsame (by simpa using List.find?_eq_none.mp hid stored hmem)
    exact .inr ⟨state, hmem, hrun, hfresh, hrefers, isNew, haccepts,
      (congrArg Prod.snd (Except.ok.inj happend)).symm⟩

theorem Tracked.addAttempt (h : Tracked store) {request : AgentRunRequest}
    {runAttemptId attemptNumber now : ℕ} (hfresh : ∀ row ∈ store.attempts, row.id ≠ runAttemptId)
    (hrun : ∃ run ∈ store.runs, run.id = request.agentRunId) :
    Tracked { store with
      attempts := store.attempts ++
        [AgentRuntimeStore.newAttempt request runAttemptId attemptNumber now] } := by
  refine ⟨⟨h.state, h.run, ?_⟩, ?_, ?_, ?_, h.positioned, h.highest, h.current, h.known⟩
  · intro row hrow
    rcases List.mem_append.mp hrow with hold | hnew
    · exact h.attempt row hold
    · have hnone : store.eventsOfAttempt runAttemptId = [] := by
        rw [AgentRuntimeStore.eventsOfAttempt, List.filter_eq_nil_iff]
        intro event hevent hattempt
        obtain ⟨old, hold, hid, -, -⟩ := h.refers event hevent
        exact hfresh old hold (hid.trans (of_decide_eq_true hattempt))
      rw [List.mem_singleton.mp hnew]
      change _ = attemptStatus (store.eventsOfAttempt runAttemptId) ∧
        _ = attemptFinish (store.eventsOfAttempt runAttemptId)
      rw [hnone]
      exact ⟨rfl, rfl⟩
  · rw [List.map_append, List.map_singleton]
    apply h.attempts_unique.append (List.nodup_singleton _)
    rw [List.disjoint_singleton]
    intro hmem
    obtain ⟨row, hrow, hid⟩ := List.mem_map.mp hmem
    exact hfresh row hrow hid
  · intro event hevent
    obtain ⟨row, hrow, hsame⟩ := h.refers event hevent
    exact ⟨row, List.mem_append_left _ hrow, hsame⟩
  · intro row hrow
    rcases List.mem_append.mp hrow with hold | hnew
    · exact h.owned row hold
    · rw [List.mem_singleton.mp hnew]
      exact hrun

theorem Tracked.addRun (h : Tracked store) {request : AgentRunRequest} {run : AgentRunRow}
    (hid : run.id = request.agentRunId) (hpending : run.status = .pending)
    (hfresh : ∀ other ∈ store.runs, other.id ≠ request.agentRunId) :
    Tracked { store with
      states := store.states ++ [.pending request]
      runs := store.runs ++ [run] } := by
  have hnone : store.eventsOf request.agentRunId = [] := by
    rw [AgentRuntimeStore.eventsOf, List.filter_eq_nil_iff]
    intro event hevent hsame
    obtain ⟨row, hrow, -, hrun, -⟩ := h.refers event hevent
    obtain ⟨other, hother, hotherId⟩ := h.owned row hrow
    exact hfresh other hother ((hotherId.trans hrun).trans (of_decide_eq_true hsame))
  have hstates {P : RunState → Prop} (hold : ∀ state ∈ store.states, P state)
      (hnew : P (.pending request)) : ∀ state ∈ store.states ++ [.pending request], P state := by
    intro state hstate
    rcases List.mem_append.mp hstate with hbefore | hlast
    · exact hold state hbefore
    · rw [List.mem_singleton.mp hlast]
      exact hnew
  refine ⟨⟨hstates h.state ?_, ?_, h.attempt⟩, h.attempts_unique, h.refers, ?_,
    hstates h.positioned fun _ => rfl, hstates h.highest ?_, hstates h.current ?_,
    hstates h.known fun _ hknown => nomatch hknown⟩
  · change AgentRunStatus.pending = attemptStatus (currentAttempt (store.eventsOf request.agentRunId))
    rw [hnone]
    rfl
  · intro other hother
    rcases List.mem_append.mp hother with hold | hnew
    · exact h.run other hold
    · rw [List.mem_singleton.mp hnew, hpending, hid]
      change _ = attemptStatus (currentAttempt (store.eventsOf request.agentRunId))
      rw [hnone]
      rfl
  · intro row hrow
    obtain ⟨other, hother, hotherId⟩ := h.owned row hrow
    exact ⟨other, List.mem_append_left _ hother, hotherId⟩
  · change 0 = highestAttempt (store.eventsOf request.agentRunId)
    rw [hnone]
    rfl
  · intro event hevent
    change event ∈ store.eventsOf request.agentRunId at hevent
    rw [hnone] at hevent
    cases hevent

/-- The state that a call writes back is the one that is there, degraded. -/
theorem writeDegraded_current {call : ℕ} (hcall : store.degrading[call]? = some (.read state))
    (hcurrent : store.ReadsCurrent call) : (store.writeDegraded call state).states =
      updateWhere (fun row => row.agentRunId = state.agentRunId) RunState.degrade store.states := by
  refine List.map_congr_left fun row hrow => ?_
  split_ifs with hsame
  · exact (hcurrent state hcall row hrow (of_decide_eq_true hsame)).symm
  · rfl

theorem Tracked.writeDegraded (h : Tracked store) {call : ℕ}
    (hcall : store.degrading[call]? = some (.read state)) (hcurrent : store.ReadsCurrent call) :
    Tracked (store.writeDegraded call state) := by
  have hstates {P : RunState → Prop} (hold : ∀ state ∈ store.states, P state)
      (hdegrade : ∀ state, P state → P state.degrade) :
      ∀ row ∈ (store.writeDegraded call state).states, P row := by
    rw [writeDegraded_current hcall hcurrent]
    intro row hrow
    rcases mem_updateWhere.mp hrow with ⟨old, hmem, -, rfl⟩ | ⟨hmem, -⟩
    · exact hdegrade old (hold old hmem)
    · exact hold row hmem
  exact ⟨⟨hstates h.state fun _ hold => hold, h.run, h.attempt⟩, h.attempts_unique, h.refers, h.owned,
    hstates h.positioned fun _ hold => hold, hstates h.highest fun _ hold => hold,
    hstates h.current fun _ hold => hold, hstates h.known fun _ hold => hold⟩

theorem Tracked.markRunDegraded (h : Tracked store) (call agentRunId now : ℕ) :
    Tracked (store.markRunDegraded call agentRunId now) := by
  refine ⟨⟨h.state, ?_, h.attempt⟩, h.attempts_unique, h.refers, ?_, h.positioned, h.highest,
    h.current, h.known⟩
  · intro run hrun
    rcases mem_updateWhere.mp hrun with ⟨old, hmem, -, rfl⟩ | ⟨hmem, -⟩
    · exact h.run old hmem
    · exact h.run run hmem
  · intro row hrow
    obtain ⟨run, hrun, hid⟩ := h.owned row hrow
    exact exists_mem_updateWhere (fun _ hkept => hkept) hrun hid

theorem markProjectionDegraded_ok {agentRunId : ℕ} {store' : AgentRuntimeStore}
    (h : store.markProjectionDegraded agentRunId = .ok store') :
    ∃ state ∈ store.states, store' = { store with degrading := store.degrading ++ [.read state] } := by
  unfold AgentRuntimeStore.markProjectionDegraded at h
  cases hfind : store.states.find? (·.agentRunId = agentRunId) with
  | none =>
    rw [hfind] at h
    cases h
  | some state =>
    rw [hfind] at h
    exact ⟨state, List.mem_of_find?_eq_some hfind, (Except.ok.inj h).symm⟩

theorem degradeNext_cases {call now : ℕ} {store' : AgentRuntimeStore}
    (h : store.degradeNext call now = some store') :
    (∃ state, store.degrading[call]? = some (.read state) ∧ store' = store.writeDegraded call state) ∨
      ∃ agentRunId, store.degrading[call]? = some (.written agentRunId) ∧
        store' = store.markRunDegraded call agentRunId now := by
  obtain ⟨stage, hcall, hstep⟩ := Option.map_eq_some_iff.mp h
  cases stage with
  | read state => exact .inl ⟨state, hcall, hstep.symm⟩
  | written agentRunId => exact .inr ⟨agentRunId, hcall, hstep.symm⟩

theorem except_toOption_eq_some {ε α : Type} {result : Except ε α} {value : α}
    (h : result.toOption = some value) : result = .ok value := by
  cases result with
  | error error => cases h
  | ok other => exact congrArg _ (Option.some.inj h)

theorem persistRetry_ok {request : AgentRunRequest} {runAttemptId attemptNumber now : ℕ}
    {store' : AgentRuntimeStore}
    (h : store.persistRetryAttemptBeforeLaunch request runAttemptId attemptNumber now = .ok store') :
    1 < attemptNumber ∧ (∃ run ∈ store.runs, run.id = request.agentRunId ∧
        run.sessionId = request.sessionId ∧ run.turnId = request.turnId) ∧
      (∀ row ∈ store.attempts, row.id ≠ runAttemptId ∧
        (row.agentRunId = request.agentRunId → row.attemptNumber ≠ attemptNumber)) ∧
      store' = { store with
        attempts := store.attempts ++
          [AgentRuntimeStore.newAttempt request runAttemptId attemptNumber now] } := by
  unfold AgentRuntimeStore.persistRetryAttemptBeforeLaunch at h
  by_cases hfirst : attemptNumber ≤ 1
  · rw [if_pos hfirst] at h
    cases h
  rw [if_neg hfirst] at h
  cases hfind : store.runs.find? (·.id = request.agentRunId) with
  | none =>
    rw [hfind] at h
    cases h
  | some run =>
    rw [hfind] at h
    simp only at h
    split_ifs at h with hrequest hkeys
    rw [not_or, not_not, not_not] at hrequest
    refine ⟨by omega, ⟨run, List.mem_of_find?_eq_some hfind, by simpa using List.find?_some hfind,
      hrequest.1, hrequest.2⟩, ?_, (Except.ok.inj h).symm⟩
    intro row hrow
    constructor
    · intro hid
      exact hkeys (List.any_eq_true.mpr ⟨row, hrow, by simp [hid]⟩)
    · intro hrun hnumber
      exact hkeys (List.any_eq_true.mpr ⟨row, hrow, by simp [hrun, hnumber]⟩)

/-- Every announced write keeps the rows in step with the events. -/
theorem Tracked.step (h : Tracked store) {write : RuntimeWrite} {store' : AgentRuntimeStore}
    (hannounced : Announced store write) (hstep : store.step write = some store') :
    Tracked store' := by
  cases write with
  | persistBeforeLaunch request runAttemptId attemptNumber now =>
    have hok := except_toOption_eq_some hstep
    unfold AgentRuntimeStore.persistBeforeLaunch at hok
    split_ifs at hok with hfirst hkeys
    obtain rfl := Except.ok.inj hok
    rw [not_or, not_or] at hkeys
    obtain ⟨hruns, -, hattempts⟩ := hkeys
    have hrunFresh : ∀ run ∈ store.runs, run.id ≠ request.agentRunId := by
      intro run hrun hid
      exact hruns (List.any_eq_true.mpr ⟨run, hrun, by simp [hid]⟩)
    have hattemptFresh : ∀ row ∈ store.attempts, row.id ≠ runAttemptId := by
      intro row hrow hid
      exact hattempts (List.any_eq_true.mpr ⟨row, hrow, by simp [hid]⟩)
    have hadded := @Tracked.addRun store h request ⟨request.agentRunId, request.sessionId,
      request.turnId, .pending, .current, now⟩ rfl rfl hrunFresh
    exact hadded.addAttempt hattemptFresh
      ⟨_, List.mem_append_right _ (List.mem_singleton_self _), rfl⟩
  | persistRetryAttemptBeforeLaunch request runAttemptId attemptNumber now =>
    obtain ⟨-, ⟨run, hrun, hid, -, -⟩, hkeys, rfl⟩ := persistRetry_ok (except_toOption_eq_some hstep)
    exact h.addAttempt (fun row hrow => (hkeys row hrow).1) ⟨run, hrun, hid⟩
  | appendAndProject event =>
    obtain ⟨⟨apply, next⟩, hsome, rfl⟩ := Option.map_eq_some_iff.mp hstep
    rcases appendAndProject_cases h.known (except_toOption_eq_some hsome) with ⟨hsame, -⟩ |
      ⟨state, hmem, hrun, -, hrefers, isNew, haccepts, hnext⟩
    · rw [hsame]
      exact h
    · rw [hnext]
      exact h.projected hrefers (h.follows hmem hrun haccepts hrefers (hannounced state hmem hrun))
  | markProjectionDegraded agentRunId =>
    obtain ⟨state, -, rfl⟩ := markProjectionDegraded_ok (except_toOption_eq_some hstep)
    exact ⟨⟨h.state, h.run, h.attempt⟩, h.attempts_unique, h.refers, h.owned, h.positioned, h.highest,
      h.current, h.known⟩
  | degradeNext call now =>
    rcases degradeNext_cases hstep with ⟨state, hcall, rfl⟩ | ⟨agentRunId, -, rfl⟩
    · exact h.writeDegraded hcall hannounced
    · exact h.markRunDegraded call agentRunId now

end Store

/-- Where every later attempt is opened by a lifecycle event, the status of a run is that of its highest
attempt, and each attempt row is made by its own events, in every store reached. -/
theorem projection_by_attempt {writes : List RuntimeWrite} {store : AgentRuntimeStore}
    (hrun : Run AgentRuntimeStore.step Announced .empty writes store) : AttemptSemantics store :=
  (hrun.invariant (fun _ _ _ h hannounced hstep => Tracked.step h hannounced hstep)
    Tracked.empty).toAttemptSemantics

/-- An event of run 2, whose attempts 1 and 2 have the ids 11 and 12. -/
def runEvent (eventId attemptNumber sequence : ℕ) (payload : AgentEventPayload) :
    AgentEventEnvelope where
  schemaVersion := 1
  payloadVersion := 1
  eventId := eventId
  sessionId := 1
  agentRunId := 2
  turnId := 3
  runAttemptId := 10 + attemptNumber
  runAttemptNumber := attemptNumber
  sequence := sequence
  correlationId := 5
  orchestrationRunId := none
  orchestrationNodeExecutionId := none
  timestamp := 100 + eventId
  nativeRefs := []
  payload := payload

/-- A run whose first attempt fails; the second begins with the payload. -/
def retriedWrites (payload : AgentEventPayload) : List RuntimeWrite :=
  [.persistBeforeLaunch ⟨1, 2, 3, 0⟩ 11 1 0,
    .appendAndProject (runEvent 1 1 1 (.lifecycleChanged .failed)),
    .persistRetryAttemptBeforeLaunch ⟨1, 2, 3, 0⟩ 12 2 0,
    .appendAndProject (runEvent 2 2 1 payload),
    .appendAndProject (runEvent 3 2 2 (.lifecycleChanged .running))]

/-- A call reads the state of run 2 and writes it back. -/
def markWrites : List RuntimeWrite := [.markProjectionDegraded 2, .degradeNext 0 0, .degradeNext 0 0]

def storeAfter (writes : List RuntimeWrite) : Option AgentRuntimeStore :=
  writes.foldlM AgentRuntimeStore.step .empty

theorem projection_by_attempt_retried : ∃ store,
    storeAfter (retriedWrites (.lifecycleChanged .starting) ++ markWrites) = some store ∧
      store.runs.map (fun run => (run.status, run.projectionStatus)) =
        [(.running, .projectionDegraded)] ∧ AttemptSemantics store := by
  refine ⟨_, rfl, rfl, @projection_by_attempt
    (retriedWrites (.lifecycleChanged .starting) ++ markWrites) _ ?_⟩
  refine .cons trivial rfl (.cons ?_ rfl (.cons trivial rfl (.cons ?_ rfl (.cons ?_ rfl
    (.cons trivial rfl (.cons ?_ rfl (.cons ?_ rfl (.nil _))))))))
  · exact fun _ _ _ _ => .inl (by decide)
  · exact fun _ _ _ _ => .inl (by decide)
  · exact fun _ _ _ _ => .inl (by decide)
  · intro read hread state hstate _
    obtain rfl := Degrading.read.inj (Option.some.inj hread)
    rw [List.mem_singleton.mp hstate]
  · intro read hread
    cases Option.some.inj hread

/-- An attempt that begins with another event keeps the end of the attempt before it. -/
theorem retry_stays_failed : ¬ ∀ writes store,
    Run AgentRuntimeStore.step (fun _ _ => True) .empty writes store → AttemptSemantics store := by
  intro h
  have hsemantics := h (retriedWrites (.thinking "")) _ (Run.of_foldlM rfl)
  have hstatus := hsemantics.run _ (List.mem_singleton_self _)
  revert hstatus
  decide

/-- A state that was read before the run ended and is written back after it loses the end. -/
theorem stale_mark_reopens : ∃ writes store,
    Run AgentRuntimeStore.step (fun _ _ => True) .empty writes store ∧
      store.states.map (·.status) = [.running] ∧
      attemptStatus (currentAttempt (store.eventsOf 2)) = .failed := by
  refine ⟨[.persistBeforeLaunch ⟨1, 2, 3, 0⟩ 11 1 0,
    .appendAndProject (runEvent 1 1 1 (.lifecycleChanged .running)), .markProjectionDegraded 2,
    .appendAndProject (runEvent 2 1 2 (.lifecycleChanged .failed)), .degradeNext 0 0], _,
    Run.of_foldlM rfl, rfl, ?_⟩
  decide

end VibeKanban.Agent
