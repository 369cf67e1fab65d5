import VibeKanban.Agent.Projection

/-! The event log of an AgentRun behind the port: how an event gets its number and the identity of the
orchestration, and the order in which the events of a run are stored. -/
namespace VibeKanban.Agent
open Lib
open VibeKanban.Runtime (AgentRunStatus)

/-- A row of `orchestration_agent_run_links`. -/
structure OrchestrationLink where
  agentRunId : ℕ
  orchestrationRunId : ℕ
  nodeExecutionId : ℕ
  deriving DecidableEq, Repr

structure AgentRunRequestEnvelope extends AgentRunRequest where
  correlationId : ℕ
  input : CanonicalMessage
  deriving DecidableEq, Repr

structure RunAttemptRequest where
  runAttemptId : ℕ
  attemptNumber : ℕ
  deriving DecidableEq, Repr

inductive AgentRunPortError where
  | notFound (agentRunId : ℕ)
  | rejected (message : String)
  | unavailable (error : AgentRuntimePersistenceError)
  deriving DecidableEq, Repr

inductive RegistryStatus where
  | reserved | spawned | running | unreachable | exited
  deriving DecidableEq, Repr

/-- A row of `agent_process_registry`. -/
structure ProcessRow where
  runAttemptId : ℕ
  status : RegistryStatus
  pid : Option ℕ
  deriving DecidableEq, Repr

structure Port where
  store : AgentRuntimeStore
  links : List OrchestrationLink
  registry : List ProcessRow
  deriving DecidableEq, Repr

/-- What an event says beside its position. -/
structure EventBody where
  payload : AgentEventPayload
  nativeRefs : List NativeAuditReference
  timestamp : ℕ
  eventId : ℕ
  deriving DecidableEq, Repr

namespace Port

def link? (port : Port) (agentRunId : ℕ) : Option OrchestrationLink :=
  port.links.find? (·.agentRunId = agentRunId)

def query (port : Port) (agentRunId : ℕ) : Except AgentRunPortError RunState :=
  match port.store.states.find? (·.agentRunId = agentRunId) with
  | none => .error (.notFound agentRunId)
  | some state => .ok state

/-- `COALESCE(MAX(sequence), 0) + 1` over the events of an attempt. -/
def nextSequence (port : Port) (runAttemptId : ℕ) : ℕ :=
  ((port.store.eventsOfAttempt runAttemptId).map (·.sequence)).foldl max 0 + 1

/-- The event of an attempt at a position. -/
def envelope (port : Port) (request : AgentRunRequestEnvelope) (attempt : RunAttemptRequest)
    (body : EventBody) (sequence : ℕ) : AgentEventEnvelope where
  schemaVersion := agentEventSchemaVersion
  payloadVersion := agentEventPayloadVersion
  eventId := body.eventId
  sessionId := request.sessionId
  agentRunId := request.agentRunId
  turnId := request.turnId
  runAttemptId := attempt.runAttemptId
  runAttemptNumber := attempt.attemptNumber
  sequence := sequence
  correlationId := request.correlationId
  orchestrationRunId := (port.link? request.agentRunId).map (·.orchestrationRunId)
  orchestrationNodeExecutionId := (port.link? request.agentRunId).map (·.nodeExecutionId)
  timestamp := body.timestamp
  nativeRefs := body.nativeRefs
  payload := body.payload

def reused (eventId : ℕ) : AgentRunPortError :=
  .rejected s!"canonical event id {eventId} was reused with different content"

/-- Store an event under the write lock; the event is sent on when it was not there. -/
def appendEvent (port : Port) (request : AgentRunRequestEnvelope) (attempt : RunAttemptRequest)
    (body : EventBody) : Except AgentRunPortError (Option AgentEventEnvelope × Port) :=
  match port.store.events.find? (·.eventId = body.eventId) with
  | some existing =>
    if port.envelope request attempt body existing.sequence = existing then .ok (none, port)
    else .error (reused body.eventId)
  | none =>
    let event := port.envelope request attempt body (port.nextSequence attempt.runAttemptId)
    match port.store.appendAndProject event with
    | .error error => .error (.unavailable error)
    | .ok (_, store) => .ok (some event, { port with store })

end Port

/-- What the rows of a run keep of the order of its events: states know their last event, and the
events of a run are stored in the order of attempt and sequence. -/
structure Stored (store : AgentRuntimeStore) : Prop where
  positioned : ∀ state ∈ store.states, state.Positioned
  known : ∀ state ∈ store.states, ∀ eventId, state.lastEventId = some eventId →
    ∃ event ∈ store.events, event.eventId = eventId
  owned : ∀ event ∈ store.events, ∃ state ∈ store.states, state.agentRunId = event.agentRunId
  reached : ∀ state ∈ store.states, ∀ event ∈ store.eventsOf state.agentRunId,
    toLex (event.runAttemptNumber, event.sequence) ≤ state.cursor
  sorted : ∀ agentRunId, (store.eventsOf agentRunId).Pairwise fun a b =>
    toLex (a.runAttemptNumber, a.sequence) < toLex (b.runAttemptNumber, b.sequence)
  ids : (store.events.map (·.eventId)).Nodup

section Stored
variable {store : AgentRuntimeStore} {event : AgentEventEnvelope} {state : RunState}

theorem Stored.empty : Stored .empty := by
  constructor
  case sorted => exact fun _ => List.Pairwise.nil
  case ids => exact List.nodup_nil
  all_goals exact fun _ h => absurd h List.not_mem_nil

/-- An accepted event goes behind the others. -/
theorem Stored.append (h : Stored store) (hstate : state ∈ store.states)
    (hrun : state.agentRunId = event.agentRunId) {isNew : Bool} (haccepts : state.Accepts event isNew)
    (hfresh : event.eventId ∉ store.events.map (·.eventId)) :
    Stored (store.projected event (state.accept event isNew).1) := by
  obtain ⟨hcursor, hlast, hid⟩ := state.accept_reaches event isNew
  have hlater := RunState.accept_cursor haccepts (h.positioned state hstate)
  rw [hcursor] at hlater
  have hbefore : ∀ earlier ∈ store.eventsOf event.agentRunId,
      toLex (earlier.runAttemptNumber, earlier.sequence) <
        toLex (event.runAttemptNumber, event.sequence) := by
    intro earlier hearlier
    exact lt_of_le_of_lt (h.reached state hstate earlier (by rw [hrun]; exact hearlier)) hlater
  constructor
  case positioned =>
    intro row hrow
    rcases mem_projected_states hrow with ⟨_, _, _, rfl⟩ | ⟨hold, -⟩
    · exact RunState.accept_positioned state event isNew
    · exact h.positioned row hold
  case known =>
    intro row hrow eventId hknown
    rcases mem_projected_states hrow with ⟨_, _, _, rfl⟩ | ⟨hold, -⟩
    · rw [hlast] at hknown
      exact ⟨event, List.mem_append_right _ (List.mem_singleton_self event),
        Option.some.inj hknown⟩
    · obtain ⟨stored, hstored, hsame⟩ := h.known row hold eventId hknown
      exact ⟨stored, List.mem_append_left _ hstored, hsame⟩
  case owned =>
    have hkept : ∀ row ∈ store.states, ∃ row' ∈ (store.projected event
        (state.accept event isNew).1).states, row'.agentRunId = row.agentRunId := by
      intro row hrow
      refine ⟨_, List.mem_map_of_mem hrow, ?_⟩
      split_ifs with hsame
      · rw [hid, hrun]
        exact (by simpa using hsame : row.agentRunId = event.agentRunId).symm
      · rfl
    intro other hother
    rcases List.mem_append.mp hother with hold | hnew
    · obtain ⟨row, hrow, hsame⟩ := h.owned other hold
      obtain ⟨row', hrow', hsame'⟩ := hkept row hrow
      exact ⟨row', hrow', hsame'.trans hsame⟩
    · obtain ⟨row', hrow', hsame'⟩ := hkept state hstate
      rw [List.mem_singleton.mp hnew]
      exact ⟨row', hrow', hsame'.trans hrun⟩
  case reached =>
    intro row hrow other hother
    rw [eventsOf_projected] at hother
    rcases mem_projected_states hrow with ⟨_, _, _, rfl⟩ | ⟨hold, hne⟩
    · rw [hid, hrun, if_pos rfl] at hother
      rw [hcursor]
      rcases List.mem_append.mp hother with hearlier | hnew
      · exact le_of_lt (hbefore other hearlier)
      · rw [List.mem_singleton.mp hnew]
    · rw [if_neg hne.symm, List.append_nil] at hother
      exact h.reached row hold other hother
  case sorted =>
    intro agentRunId
    rw [eventsOf_projected]
    split_ifs with hsame
    · rw [List.pairwise_append]
      refine ⟨h.sorted agentRunId, List.pairwise_singleton _ _, ?_⟩
      intro earlier hearlier last hlast
      rw [List.mem_singleton.mp hlast]
      exact hbefore earlier (by rw [hsame]; exact hearlier)
    · rw [List.append_nil]
      exact h.sorted agentRunId
  case ids =>
    show ((store.events ++ [event]).map (·.eventId)).Nodup
    rw [List.map_append, List.map_singleton]
    apply h.ids.append (List.nodup_singleton _)
    rw [List.disjoint_singleton]
    exact hfresh

/-- A change of rows that leaves the events and the cursors. -/
theorem Stored.congr (h : Stored store) {store' : AgentRuntimeStore}
    (hevents : store'.events = store.events)
    (hold : ∀ row ∈ store.states, ∃ row' ∈ store'.states, row'.agentRunId = row.agentRunId)
    (hnew : ∀ row' ∈ store'.states, (∃ row ∈ store.states, row'.agentRunId = row.agentRunId ∧
      row'.lastRunAttemptId = row.lastRunAttemptId ∧ row'.cursor = row.cursor ∧
      row'.lastEventId = row.lastEventId) ∨
      (row'.Positioned ∧ row'.lastEventId = none ∧ store.eventsOf row'.agentRunId = [])) :
    Stored store' := by
  have hof : ∀ agentRunId, store'.eventsOf agentRunId = store.eventsOf agentRunId := by
    intro agentRunId
    rw [AgentRuntimeStore.eventsOf, AgentRuntimeStore.eventsOf, hevents]
  constructor
  case positioned =>
    intro row' hrow'
    rcases hnew row' hrow' with ⟨row, hrow, -, hattempt, hcursor, -⟩ | ⟨hpositioned, -, -⟩
    · have hrowPositioned := h.positioned row hrow
      intro hnone
      rw [hattempt] at hnone
      have hnumber := hrowPositioned hnone
      have hfirst := congrArg (fun p => (ofLex p).1) hcursor
      exact hfirst.trans hnumber
    · exact hpositioned
  case known =>
    intro row' hrow' eventId hknown
    rw [hevents]
    rcases hnew row' hrow' with ⟨row, hrow, -, -, -, hlast⟩ | ⟨-, hnone, -⟩
    · exact h.known row hrow eventId (hlast ▸ hknown)
    · rw [hnone] at hknown
      cases hknown
  case owned =>
    intro event hevent
    obtain ⟨row, hrow, hsame⟩ := h.owned event (hevents ▸ hevent)
    obtain ⟨row', hrow', hsame'⟩ := hold row hrow
    exact ⟨row', hrow', hsame'.trans hsame⟩
  case reached =>
    intro row' hrow' event hevent
    rw [hof] at hevent
    rcases hnew row' hrow' with ⟨row, hrow, hrun, -, hcursor, -⟩ | ⟨-, -, hnone⟩
    · rw [hcursor]
      exact h.reached row hrow event (hrun ▸ hevent)
    · rw [hnone] at hevent
      cases hevent
  case sorted =>
    intro agentRunId
    rw [hof]
    exact h.sorted agentRunId
  case ids =>
    rw [hevents]
    exact h.ids

/-- No state is written back that has changed since it was read. -/
def WritesCurrent (store : AgentRuntimeStore) : RuntimeWrite → Prop
  | .degradeNext call _ => store.ReadsCurrent call
  | _ => True

/-- Rows are added and projections degraded without a new event. -/
theorem Stored.step (h : Stored store) {write : RuntimeWrite} {store' : AgentRuntimeStore}
    (hcurrent : WritesCurrent store write) (hstep : store.step write = some store') :
    Stored store' := by
  cases write with
  | persistBeforeLaunch request runAttemptId attemptNumber now =>
    have hok := except_toOption_eq_some hstep
    unfold AgentRuntimeStore.persistBeforeLaunch at hok
    split_ifs at hok with hfirst hkeys
    obtain rfl := Except.ok.inj hok
    rw [not_or, not_or] at hkeys
    obtain ⟨-, hstates, -⟩ := hkeys
    refine h.congr rfl (fun row hrow => ⟨row, List.mem_append_left _ hrow, rfl⟩) ?_
    intro row hrow
    rcases List.mem_append.mp hrow with hold | hnew
    · exact .inl ⟨row, hold, rfl, rfl, rfl, rfl⟩
    · rw [List.mem_singleton.mp hnew]
      refine .inr ⟨fun _ => rfl, rfl, ?_⟩
      rw [AgentRuntimeStore.eventsOf, List.filter_eq_nil_iff]
      intro event hevent hrun
      obtain ⟨state, hstate, hsame⟩ := h.owned event hevent
      apply hstates
      rw [List.any_eq_true]
      have hrequest : event.agentRunId = request.agentRunId := of_decide_eq_true hrun
      exact ⟨state, hstate, by simp [hsame, hrequest]⟩
  | persistRetryAttemptBeforeLaunch request runAttemptId attemptNumber now =>
    obtain ⟨-, -, -, rfl⟩ := persistRetry_ok (except_toOption_eq_some hstep)
    exact h.congr rfl (fun row hrow => ⟨row, hrow, rfl⟩)
      fun row hrow => .inl ⟨row, hrow, rfl, rfl, rfl, rfl⟩
  | appendAndProject event =>
    obtain ⟨⟨apply, next⟩, hsome, rfl⟩ := Option.map_eq_some_iff.mp hstep
    have happend := except_toOption_eq_some hsome
    rcases appendAndProject_cases h.known happend with ⟨hsame, -⟩ |
      ⟨state, hmem, hrun, hfresh, -, isNew, haccepts, hnext⟩
    · rw [hsame]
      exact h
    · rw [hnext]
      exact h.append hmem hrun haccepts hfresh
  | markProjectionDegraded agentRunId =>
    obtain ⟨state, -, rfl⟩ := markProjectionDegraded_ok (except_toOption_eq_some hstep)
    exact h.congr rfl (fun row hrow => ⟨row, hrow, rfl⟩)
      fun row hrow => .inl ⟨row, hrow, rfl, rfl, rfl, rfl⟩
  | degradeNext call now =>
    rcases degradeNext_cases hstep with ⟨state, hcall, rfl⟩ | ⟨agentRunId, -, rfl⟩
    · have hstates := writeDegraded_current hcall hcurrent
      refine h.congr rfl ?_ ?_
      · intro row hrow
        rw [hstates]
        refine ⟨_, List.mem_map_of_mem hrow, ?_⟩
        split_ifs
        · rfl
        · rfl
      · intro row' hrow'
        rw [hstates] at hrow'
        obtain ⟨row, hrow, rfl⟩ := List.mem_map.mp hrow'
        refine .inl ⟨row, hrow, ?_⟩
        split_ifs
        · exact ⟨rfl, rfl, rfl, rfl⟩
        · exact ⟨rfl, rfl, rfl, rfl⟩
    · exact h.congr rfl (fun row hrow => ⟨row, hrow, rfl⟩)
        fun row hrow => .inl ⟨row, hrow, rfl, rfl, rfl, rfl⟩

end Stored

/-- An event that was there already is left alone; another one is stored behind the others. -/
theorem Port.appendEvent_cases {port port' : Port} {request : AgentRunRequestEnvelope}
    {attempt : RunAttemptRequest} {body : EventBody} {sent : Option AgentEventEnvelope}
    (h : Stored port.store) (happend : port.appendEvent request attempt body = .ok (sent, port')) :
    (sent = none ∧ port' = port) ∨
      sent = some (port.envelope request attempt body (port.nextSequence attempt.runAttemptId)) ∧
        port'.links = port.links ∧ port'.registry = port.registry ∧ Stored port'.store ∧
        port'.store.events = port.store.events ++
          [port.envelope request attempt body (port.nextSequence attempt.runAttemptId)] := by
  unfold Port.appendEvent at happend
  cases hid : port.store.events.find? (·.eventId = body.eventId) with
  | some existing =>
    rw [hid] at happend
    simp only at happend
    split_ifs at happend
    obtain ⟨rfl, rfl⟩ := Prod.mk.inj (Except.ok.inj happend)
    exact .inl ⟨rfl, rfl⟩
  | none =>
    rw [hid] at happend
    simp only at happend
    cases hstored : port.store.appendAndProject
        (port.envelope request attempt body (port.nextSequence attempt.runAttemptId)) with
    | error error =>
      rw [hstored] at happend
      cases happend
    | ok applied =>
      rw [hstored] at happend
      obtain ⟨rfl, rfl⟩ := Prod.mk.inj (Except.ok.inj happend)
      rcases appendAndProject_cases h.known hstored with ⟨-, hmem⟩ |
        ⟨state, hmem, hrun, hfresh, -, isNew, haccepts, hnext⟩
      · have hne := List.find?_eq_none.mp hid _ hmem
        exact absurd (decide_eq_true rfl) hne
      · refine .inr ⟨rfl, rfl, rfl, ?_, ?_⟩
        · simp only
          rw [hnext]
          exact h.append hmem hrun haccepts hfresh
        · simp only
          rw [hnext]
          rfl

/-- The newest attempt of a run, ready for its next event. -/
structure Ready (port : Port) (request : AgentRunRequestEnvelope) (attempt : RunAttemptRequest)
    (state : RunState) : Prop where
  found : port.store.states.find? (·.agentRunId = request.agentRunId) = some state
  valid : state.validateState = .ok ()
  sessionId : state.sessionId = request.sessionId
  turnId : state.turnId = request.turnId
  number_pos : 0 < attempt.attemptNumber
  newest : state.lastRunAttemptNumber < attempt.attemptNumber ∨
    state.lastRunAttemptNumber = attempt.attemptNumber ∧
      state.lastRunAttemptId = some attempt.runAttemptId ∧
      state.lastEventSequence < port.nextSequence attempt.runAttemptId
  refers : ∀ body sequence, port.store.refers (port.envelope request attempt body sequence) = true

section Ready
variable {port : Port} {request : AgentRunRequestEnvelope} {attempt : RunAttemptRequest}
  {state : RunState} {body : EventBody}

theorem foldl_max_bound {n : ℕ} (values : List ℕ) :
    n ≤ values.foldl max n ∧ ∀ value ∈ values, value ≤ values.foldl max n := by
  induction values generalizing n with
  | nil => exact ⟨le_rfl, fun _ h => absurd h List.not_mem_nil⟩
  | cons value rest ih =>
    obtain ⟨hstart, hrest⟩ := @ih (max n value)
    rw [List.foldl_cons]
    refine ⟨(Nat.le_max_left n value).trans hstart, ?_⟩
    intro other hother
    rcases List.mem_cons.mp hother with rfl | hother
    · exact (Nat.le_max_right n other).trans hstart
    · exact hrest other hother

theorem lt_nextSequence {event : AgentEventEnvelope}
    (h : event ∈ port.store.eventsOfAttempt attempt.runAttemptId) :
    event.sequence < port.nextSequence attempt.runAttemptId := by
  have hbound := (@foldl_max_bound 0
    ((port.store.eventsOfAttempt attempt.runAttemptId).map (·.sequence))).2 event.sequence
    (List.mem_map_of_mem h)
  unfold Port.nextSequence
  omega

theorem Ready.accepts (h : Ready port request attempt state) :
    state.Accepts (port.envelope request attempt body (port.nextSequence attempt.runAttemptId))
      (decide (state.lastRunAttemptNumber < attempt.attemptNumber)) := by
  have hrun : state.agentRunId = request.agentRunId := by simpa using List.find?_some h.found
  refine ⟨h.valid, rfl, h.sessionId, hrun, h.turnId, h.number_pos, Nat.succ_pos _, ?_, ?_⟩
  · unfold RunState.isNewAttempt
    rcases h.newest with hlater | ⟨hsame, hid, -⟩
    · cases hlast : state.lastRunAttemptId with
      | none => simp [hlater]
      | some lastAttemptId =>
        have hnot : ¬ attempt.attemptNumber < state.lastRunAttemptNumber := by omega
        have hne : attempt.attemptNumber ≠ state.lastRunAttemptNumber := by omega
        simp [Port.envelope, hnot, hne, hlater]
    · rw [hid]
      simp [Port.envelope, hsame]
  · intro hold
    rcases h.newest with hlater | ⟨-, -, hsequence⟩
    · simp [hlater] at hold
    · exact hsequence

/-- The state behind a stored event. -/
def Port.next (port : Port) (request : AgentRunRequestEnvelope) (attempt : RunAttemptRequest)
    (body : EventBody) (state : RunState) : RunState :=
  (state.accept (port.envelope request attempt body (port.nextSequence attempt.runAttemptId))
    (decide (state.lastRunAttemptNumber < attempt.attemptNumber))).1

/-- The port behind a stored event. -/
def Port.appended (port : Port) (request : AgentRunRequestEnvelope) (attempt : RunAttemptRequest)
    (body : EventBody) (state : RunState) : Port :=
  let event := port.envelope request attempt body (port.nextSequence attempt.runAttemptId)
  let store := port.store.projected event (port.next request attempt body state)
  { port with store }

/-- A new event of the newest attempt is stored. -/
theorem Ready.append (h : Ready port request attempt state)
    (hfresh : body.eventId ∉ port.store.events.map (·.eventId))
    (hroom : port.nextSequence attempt.runAttemptId ≤ maxSequence) :
    port.appendEvent request attempt body =
      .ok (some (port.envelope request attempt body (port.nextSequence attempt.runAttemptId)),
        port.appended request attempt body state) := by
  have hid : port.store.events.find? (·.eventId = body.eventId) = none := by
    rw [List.find?_eq_none]
    intro event hevent hsame
    exact hfresh (List.mem_map.mpr ⟨event, hevent, by simpa using hsame⟩)
  have hposition : port.store.events.find? (fun stored =>
      stored.runAttemptId = attempt.runAttemptId ∧
        stored.sequence = port.nextSequence attempt.runAttemptId) = none := by
    rw [List.find?_eq_none]
    intro event hevent hsame
    obtain ⟨hattempt, hsequence⟩ := of_decide_eq_true hsame
    have hlt := @lt_nextSequence port attempt event
      (List.mem_filter.mpr ⟨hevent, by simpa using hattempt⟩)
    omega
  have haccepts := @Ready.accepts port request attempt state body h
  have hroom' : ¬ maxSequence < (port.envelope request attempt body
      (port.nextSequence attempt.runAttemptId)).sequence := Nat.not_lt.mpr hroom
  have hstored : port.store.appendAndProject
      (port.envelope request attempt body (port.nextSequence attempt.runAttemptId)) =
      .ok ((state.accept (port.envelope request attempt body
          (port.nextSequence attempt.runAttemptId))
        (decide (state.lastRunAttemptNumber < attempt.attemptNumber))).2,
        (port.appended request attempt body state).store) := by
    unfold AgentRuntimeStore.appendAndProject
    rw [haccepts.projects]
    simp only [if_neg hroom']
    rw [show (port.envelope request attempt body
      (port.nextSequence attempt.runAttemptId)).eventId = body.eventId from rfl, hid]
    simp only
    rw [show port.store.events.find? (fun stored => decide (stored.runAttemptId =
        (port.envelope request attempt body
          (port.nextSequence attempt.runAttemptId)).runAttemptId ∧ stored.sequence =
        (port.envelope request attempt body
          (port.nextSequence attempt.runAttemptId)).sequence)) = none from hposition]
    simp only
    rw [show port.store.states.find? (fun row => decide (row.agentRunId =
        (port.envelope request attempt body
          (port.nextSequence attempt.runAttemptId)).agentRunId)) = some state from h.found]
    simp only [haccepts.reduce]
    rw [if_pos (h.refers _ _)]
    rfl
  unfold Port.appendEvent
  rw [hid]
  simp only
  rw [hstored]
  rfl

/-- A sequence that no column holds. -/
theorem Ready.append_full (h : Ready port request attempt state)
    (hfresh : body.eventId ∉ port.store.events.map (·.eventId))
    (hfull : maxSequence < port.nextSequence attempt.runAttemptId) :
    port.appendEvent request attempt body = .error (.unavailable .serialization) := by
  have hid : port.store.events.find? (·.eventId = body.eventId) = none := by
    rw [List.find?_eq_none]
    intro event hevent hsame
    exact hfresh (List.mem_map.mpr ⟨event, hevent, by simpa using hsame⟩)
  have haccepts := @Ready.accepts port request attempt state body h
  have hfull' : maxSequence < (port.envelope request attempt body
      (port.nextSequence attempt.runAttemptId)).sequence := hfull
  have hrefused : port.store.appendAndProject
      (port.envelope request attempt body (port.nextSequence attempt.runAttemptId)) =
      .error .serialization := by
    unfold AgentRuntimeStore.appendAndProject
    rw [haccepts.projects]
    simp only [if_pos hfull']
  unfold Port.appendEvent
  rw [hid]
  simp only
  rw [hrefused]

theorem nextSequence_appended :
    (port.appended request attempt body state).nextSequence attempt.runAttemptId =
      port.nextSequence attempt.runAttemptId + 1 := by
  have hevents : (port.appended request attempt body state).store.eventsOfAttempt
      attempt.runAttemptId = port.store.eventsOfAttempt attempt.runAttemptId ++
        [port.envelope request attempt body (port.nextSequence attempt.runAttemptId)] := by
    rw [Port.appended]
    simp only
    rw [eventsOfAttempt_projected]
    exact congrArg _ (if_pos rfl)
  rw [Port.nextSequence, hevents, List.map_append, List.foldl_append, List.map_singleton,
    List.foldl_cons, List.foldl_nil]
  have hsequence : (port.envelope request attempt body
      (port.nextSequence attempt.runAttemptId)).sequence =
      port.nextSequence attempt.runAttemptId := rfl
  rw [hsequence, Port.nextSequence]
  omega

theorem find?_updateWhere {p : RunState → Bool} {states : List RunState} {next : RunState}
    (h : states.find? p = some state) (hnext : p next = true) :
    (updateWhere p (fun _ => next) states).find? p = some next := by
  induction states with
  | nil => cases h
  | cons row rest ih =>
    rw [updateWhere, List.map_cons]
    by_cases hrow : p row = true
    · rw [if_pos hrow, List.find?_cons_of_pos hnext]
    · rw [List.find?_cons_of_neg hrow] at h
      rw [if_neg hrow, List.find?_cons_of_neg hrow]
      exact ih h

theorem refers_projected {store : AgentRuntimeStore} (event other : AgentEventEnvelope)
    (next : RunState) : (store.projected event next).refers other = store.refers other := by
  unfold AgentRuntimeStore.refers AgentRuntimeStore.projected updateWhere
  simp only [List.any_map]
  congr 1
  · congr 1
    funext run
    simp only [Function.comp]
    split_ifs
    · rfl
    · rfl
  · congr 1
    funext row
    simp only [Function.comp]
    split_ifs
    · rfl
    · rfl

/-- What a stored event leaves of the state of its run. -/
theorem Ready.next (h : Ready port request attempt state) :
    Ready (port.appended request attempt body state) request attempt
      (port.next request attempt body state) := by
  have hrun : state.agentRunId = request.agentRunId := by simpa using List.find?_some h.found
  obtain ⟨_, _, _, _, _, hnext, -, -⟩ := state.accept_eq
    (port.envelope request attempt body (port.nextSequence attempt.runAttemptId))
    (decide (state.lastRunAttemptNumber < attempt.attemptNumber))
  have hsame : port.next request attempt body state = _ := hnext
  constructor
  case found =>
    apply find?_updateWhere h.found
    rw [hsame]
    exact decide_eq_true hrun
  case valid =>
    rw [hsame]
    exact h.valid
  case sessionId =>
    rw [hsame]
    exact h.sessionId
  case turnId =>
    rw [hsame]
    exact h.turnId
  case number_pos => exact h.number_pos
  case newest =>
    rw [nextSequence_appended, hsame]
    exact .inr ⟨rfl, rfl, Nat.lt_succ_self _⟩
  case refers =>
    intro other sequence
    rw [Port.appended]
    simp only
    rw [refers_projected]
    exact h.refers other sequence

end Ready

end VibeKanban.Agent
