import VibeKanban.Agent.HostEvents

/-! A later attempt of an AgentRun, whose events go behind those of the attempts before it. -/
namespace VibeKanban.Agent
open Lib
open VibeKanban.Runtime (AgentRunStatus)

/-- What holds of a state of a run, whether it is stored or a call has read it. -/
structure Sound (store : AgentRuntimeStore) (state : RunState) : Prop where
  valid : state.validateState = .ok ()
  known : ∀ eventId, state.lastEventId = some eventId → ∃ event ∈ store.events, event.eventId = eventId
  numbered : state.lastRunAttemptNumber = 0 ∨ ∃ row ∈ store.attempts,
    row.agentRunId = state.agentRunId ∧ row.attemptNumber = state.lastRunAttemptNumber

/-- The rows of runs and their states belong together, and states and events name attempts. -/
structure Paired (store : AgentRuntimeStore) : Prop where
  sound : ∀ state ∈ store.states, Sound store state
  reads : ∀ read, .read read ∈ store.degrading → Sound store read ∧ ∃ state ∈ store.states,
    state.agentRunId = read.agentRunId ∧ state.sessionId = read.sessionId ∧ state.turnId = read.turnId
  states : (store.states.map (·.agentRunId)).Nodup
  run : ∀ run ∈ store.runs, ∃ state ∈ store.states, state.agentRunId = run.id ∧
    state.sessionId = run.sessionId ∧ state.turnId = run.turnId
  refers : ∀ event ∈ store.events, ∃ row ∈ store.attempts, row.id = event.runAttemptId

section Paired
variable {store store' : AgentRuntimeStore} {state : RunState} {event : AgentEventEnvelope}

theorem Paired.empty : Paired .empty := by
  constructor
  case states => exact List.nodup_nil
  all_goals exact fun _ h => absurd h List.not_mem_nil

theorem Paired.unique (h : Paired store) {a b : RunState} (ha : a ∈ store.states)
    (hb : b ∈ store.states) (hsame : a.agentRunId = b.agentRunId) : a = b :=
  List.inj_on_of_nodup_map h.states ha hb hsame

/-- Events and attempts are kept. -/
structure Grows (store store' : AgentRuntimeStore) : Prop where
  events : ∀ event ∈ store.events, event ∈ store'.events
  attempts : ∀ row ∈ store.attempts, ∃ row' ∈ store'.attempts, row'.id = row.id ∧
    row'.agentRunId = row.agentRunId ∧ row'.attemptNumber = row.attemptNumber

theorem Sound.grow (h : Sound store state) (hgrows : Grows store store') : Sound store' state := by
  refine ⟨h.valid, ?_, ?_⟩
  · intro eventId hlast
    obtain ⟨event, hevent, hid⟩ := h.known eventId hlast
    exact ⟨event, hgrows.events event hevent, hid⟩
  · rcases h.numbered with hzero | ⟨row, hrow, hrun, hnumber⟩
    · exact .inl hzero
    · obtain ⟨row', hrow', -, hrun', hnumber'⟩ := hgrows.attempts row hrow
      exact .inr ⟨row', hrow', hrun'.trans hrun, hnumber'.trans hnumber⟩

theorem Grows.referred (h : Paired store) (hgrows : Grows store store') :
    ∀ event ∈ store.events, ∃ row ∈ store'.attempts, row.id = event.runAttemptId := by
  intro event hevent
  obtain ⟨row, hrow, hid⟩ := h.refers event hevent
  obtain ⟨row', hrow', hid', -, -⟩ := hgrows.attempts row hrow
  exact ⟨row', hrow', hid'.trans hid⟩

/-- The tables behind a change of states that keeps their runs, sessions and turns. -/
theorem Paired.restate (h : Paired store) (hgrows : Grows store store')
    {p : RunState → Bool} {next : RunState → RunState}
    (hstates : store'.states = updateWhere p next store.states)
    (hnext : ∀ row ∈ store.states, p row = true → Sound store' (next row) ∧
      (next row).agentRunId = row.agentRunId ∧ (next row).sessionId = row.sessionId ∧
      (next row).turnId = row.turnId)
    (hreads : ∀ read, .read read ∈ store'.degrading → .read read ∈ store.degrading)
    (hruns : ∀ run' ∈ store'.runs, ∃ run ∈ store.runs, run.id = run'.id ∧
      run.sessionId = run'.sessionId ∧ run.turnId = run'.turnId)
    (hrefers : ∀ event ∈ store'.events, ∃ row ∈ store'.attempts, row.id = event.runAttemptId) :
    Paired store' := by
  have hkept : ∀ row ∈ store.states, ∃ row' ∈ store'.states, row'.agentRunId = row.agentRunId ∧
      row'.sessionId = row.sessionId ∧ row'.turnId = row.turnId := by
    intro row hrow
    rw [hstates]
    refine ⟨_, List.mem_map_of_mem hrow, ?_⟩
    split_ifs with hp
    · exact (hnext row hrow hp).2
    · exact ⟨rfl, rfl, rfl⟩
  refine ⟨?_, ?_, ?_, ?_, hrefers⟩
  · intro row' hrow'
    rw [hstates] at hrow'
    rcases mem_updateWhere.mp hrow' with ⟨row, hrow, hp, rfl⟩ | ⟨hrow, -⟩
    · exact (hnext row hrow hp).1
    · exact (h.sound row' hrow).grow hgrows
  · intro read hread
    obtain ⟨hsound, row, hrow, hrun, hsession, hturn⟩ := h.reads read (hreads read hread)
    obtain ⟨row', hrow', hrun', hsession', hturn'⟩ := hkept row hrow
    exact ⟨hsound.grow hgrows, row', hrow', hrun'.trans hrun, hsession'.trans hsession,
      hturn'.trans hturn⟩
  · have hsame : store'.states.map (·.agentRunId) = store.states.map (·.agentRunId) := by
      rw [hstates, updateWhere, List.map_map]
      refine List.map_congr_left fun row hrow => ?_
      simp only [Function.comp]
      split_ifs with hp
      · exact (hnext row hrow hp).2.1
      · rfl
    rw [hsame]
    exact h.states
  · intro run' hrun'
    obtain ⟨run, hrun, hid, hsession, hturn⟩ := hruns run' hrun'
    obtain ⟨row, hrow, hrowRun, hrowSession, hrowTurn⟩ := h.run run hrun
    obtain ⟨row', hrow', hsame, hsameSession, hsameTurn⟩ := hkept row hrow
    exact ⟨row', hrow', by rw [hsame, hrowRun, hid], by rw [hsameSession, hrowSession, hsession],
      by rw [hsameTurn, hrowTurn, hturn]⟩

theorem projected_grows (next : RunState) : Grows store (store.projected event next) := by
  constructor
  · exact fun other hother => List.mem_append_left _ hother
  · intro row hrow
    refine ⟨_, List.mem_map_of_mem hrow, ?_⟩
    split_ifs
    · exact ⟨rfl, rfl, rfl⟩
    · exact ⟨rfl, rfl, rfl⟩

theorem Paired.append (h : Paired store) (hstate : state ∈ store.states)
    (hrun : state.agentRunId = event.agentRunId) (isNew : Bool)
    (hrefers : store.refers event = true) :
    Paired (store.projected event (state.accept event isNew).1) := by
  obtain ⟨_, _, _, _, _, hnext, -, -⟩ := state.accept_eq event isNew
  generalize (state.accept event isNew).1 = next at hnext ⊢
  have hgrows := @projected_grows store event next
  obtain ⟨attempt, hattempt, hmatch⟩ := List.any_eq_true.mp (Bool.and_eq_true_iff.mp hrefers).2
  obtain ⟨hattemptId, hattemptRun, -, hnumber⟩ := of_decide_eq_true hmatch
  obtain ⟨attempt', hattempt', hsameId, hsameRun, hsameNumber⟩ := hgrows.attempts attempt hattempt
  refine h.restate hgrows rfl ?_ (fun _ hread => hread) ?_ ?_
  · intro row hrow hp
    rw [h.unique hrow hstate ((of_decide_eq_true hp).trans hrun.symm)]
    have hrunNext : next.agentRunId = state.agentRunId := by rw [hnext]; rfl
    have hnumberNext : next.lastRunAttemptNumber = event.runAttemptNumber := by rw [hnext]; rfl
    have hlastNext : next.lastEventId = some event.eventId := by rw [hnext]; rfl
    have hvalidNext : next.validateState = .ok () := by
      rw [hnext]
      exact (h.sound state hstate).valid
    refine ⟨⟨hvalidNext, ?_, .inr ⟨attempt', hattempt', ?_, ?_⟩⟩, hrunNext, ?_, ?_⟩
    · intro eventId hlast
      rw [hlastNext] at hlast
      exact ⟨event, List.mem_append_right _ (List.mem_singleton_self _), Option.some.inj hlast⟩
    · rw [hsameRun, hattemptRun, hrunNext, hrun]
    · rw [hsameNumber, hnumber, hnumberNext]
    · rw [hnext]
      rfl
    · rw [hnext]
      rfl
  · intro run' hrun'
    obtain ⟨run, hmem, hproject⟩ := List.mem_map.mp hrun'
    refine ⟨run, hmem, ?_⟩
    rw [← hproject]
    split_ifs
    · exact ⟨rfl, rfl, rfl⟩
    · exact ⟨rfl, rfl, rfl⟩
  · intro other hother
    rcases List.mem_append.mp hother with hstored | hnew
    · exact hgrows.referred h other hstored
    · rw [List.mem_singleton.mp hnew]
      exact ⟨attempt', hattempt', hsameId.trans hattemptId⟩

/-- A run without events. -/
theorem Paired.addRun (h : Paired store) {request : AgentRunRequest} {run : AgentRunRow}
    {attempt : RunAttemptRow} (hid : run.id = request.agentRunId)
    (hsession : run.sessionId = request.sessionId) (hturn : run.turnId = request.turnId)
    (hfresh : ∀ row ∈ store.states, row.agentRunId ≠ request.agentRunId) :
    Paired { store with
      states := store.states ++ [.pending request]
      runs := store.runs ++ [run]
      attempts := store.attempts ++ [attempt] } := by
  have hgrows : Grows store { store with
      states := store.states ++ [.pending request]
      runs := store.runs ++ [run]
      attempts := store.attempts ++ [attempt] } :=
    ⟨fun _ hevent => hevent, fun row hrow => ⟨row, List.mem_append_left _ hrow, rfl, rfl, rfl⟩⟩
  refine ⟨?_, ?_, ?_, ?_, fun event hevent => hgrows.referred h event hevent⟩
  · intro row hrow
    rcases List.mem_append.mp hrow with hold | hnew
    · exact (h.sound row hold).grow hgrows
    · rw [List.mem_singleton.mp hnew]
      exact ⟨rfl, fun _ hlast => (Option.some_ne_none _ hlast.symm).elim, .inl rfl⟩
  · intro read hread
    obtain ⟨hsound, row, hrow, hsame⟩ := h.reads read hread
    exact ⟨hsound.grow hgrows, row, List.mem_append_left _ hrow, hsame⟩
  · show ((store.states ++ [RunState.pending request]).map (·.agentRunId)).Nodup
    rw [List.map_append, List.map_singleton]
    apply h.states.append (List.nodup_singleton _)
    rw [List.disjoint_singleton]
    intro hmem
    obtain ⟨row, hrow, hrowRun⟩ := List.mem_map.mp hmem
    exact hfresh row hrow hrowRun
  · intro other hother
    rcases List.mem_append.mp hother with hold | hnew
    · obtain ⟨row, hrow, hsame⟩ := h.run other hold
      exact ⟨row, List.mem_append_left _ hrow, hsame⟩
    · rw [List.mem_singleton.mp hnew]
      exact ⟨_, List.mem_append_right _ (List.mem_singleton_self _), hid.symm, hsession.symm, hturn.symm⟩

theorem Paired.addAttempt (h : Paired store) (attempt : RunAttemptRow) :
    Paired { store with attempts := store.attempts ++ [attempt] } := by
  have hgrows : Grows store { store with attempts := store.attempts ++ [attempt] } :=
    ⟨fun _ hevent => hevent, fun row hrow => ⟨row, List.mem_append_left _ hrow, rfl, rfl, rfl⟩⟩
  refine ⟨fun row hrow => (h.sound row hrow).grow hgrows, ?_, h.states, h.run,
    fun event hevent => hgrows.referred h event hevent⟩
  intro read hread
  obtain ⟨hsound, hrow⟩ := h.reads read hread
  exact ⟨hsound.grow hgrows, hrow⟩

/-- A state that a call has read may be written back, however old it is. -/
theorem Paired.writeDegraded (h : Paired store) {call : ℕ}
    (hcall : store.degrading[call]? = some (.read state)) :
    Paired (store.writeDegraded call state) := by
  have hgrows : Grows store (store.writeDegraded call state) :=
    ⟨fun _ hevent => hevent, fun row hrow => ⟨row, hrow, rfl, rfl, rfl⟩⟩
  obtain ⟨hsound, stored, hstored, hrun, hsession, hturn⟩ :=
    h.reads state (List.mem_of_getElem? hcall)
  refine h.restate hgrows rfl ?_ ?_ (fun run hmem => ⟨run, hmem, rfl, rfl, rfl⟩) h.refers
  · intro row hrow hp
    have hsame := h.unique hrow hstored ((of_decide_eq_true hp).trans hrun.symm)
    rw [hsame]
    exact ⟨⟨hsound.valid, hsound.known, hsound.numbered⟩, hrun.symm, hsession.symm, hturn.symm⟩
  · intro read hread
    rcases List.mem_or_eq_of_mem_set hread with hold | hnew
    · exact hold
    · cases hnew

theorem Paired.markRunDegraded (h : Paired store) (call agentRunId now : ℕ) :
    Paired (store.markRunDegraded call agentRunId now) := by
  refine ⟨fun row hrow => ⟨(h.sound row hrow).valid, (h.sound row hrow).known,
    (h.sound row hrow).numbered⟩, ?_, h.states, ?_, h.refers⟩
  · intro read hread
    obtain ⟨hsound, hrow⟩ := h.reads read (List.mem_of_mem_eraseIdx hread)
    exact ⟨⟨hsound.valid, hsound.known, hsound.numbered⟩, hrow⟩
  · intro run' hrun'
    rcases mem_updateWhere.mp hrun' with ⟨run, hrun, -, rfl⟩ | ⟨hrun, -⟩
    · exact h.run run hrun
    · exact h.run run' hrun

theorem Paired.step (h : Paired store) {write : RuntimeWrite}
    (hstep : store.step write = some store') : Paired store' := by
  cases write with
  | persistBeforeLaunch request runAttemptId attemptNumber now =>
    have hok := except_toOption_eq_some hstep
    unfold AgentRuntimeStore.persistBeforeLaunch at hok
    split_ifs at hok with hfirst hkeys
    obtain rfl := Except.ok.inj hok
    rw [not_or, not_or] at hkeys
    obtain ⟨-, hstates, -⟩ := hkeys
    refine h.addRun rfl rfl rfl ?_
    intro row hrow hid
    exact hstates (List.any_eq_true.mpr ⟨row, hrow, decide_eq_true hid⟩)
  | persistRetryAttemptBeforeLaunch request runAttemptId attemptNumber now =>
    obtain ⟨-, -, -, rfl⟩ := persistRetry_ok (except_toOption_eq_some hstep)
    exact h.addAttempt _
  | appendAndProject event =>
    obtain ⟨⟨apply, next⟩, hsome, rfl⟩ := Option.map_eq_some_iff.mp hstep
    have hknown : ∀ state ∈ store.states, ∀ eventId, state.lastEventId = some eventId →
        ∃ event ∈ store.events, event.eventId = eventId :=
      fun state hstate => (h.sound state hstate).known
    rcases appendAndProject_cases hknown (except_toOption_eq_some hsome) with ⟨hsame, -⟩ |
      ⟨state, hmem, hrun, -, hrefers, isNew, -, hnext⟩
    · rw [hsame]
      exact h
    · rw [hnext]
      exact h.append hmem hrun isNew hrefers
  | markProjectionDegraded agentRunId =>
    obtain ⟨state, hstate, rfl⟩ := markProjectionDegraded_ok (except_toOption_eq_some hstep)
    refine ⟨fun row hrow => ⟨(h.sound row hrow).valid, (h.sound row hrow).known,
      (h.sound row hrow).numbered⟩, ?_, h.states, h.run, h.refers⟩
    intro read hread
    have hsound : Sound store read ∧ ∃ row ∈ store.states, row.agentRunId = read.agentRunId ∧
        row.sessionId = read.sessionId ∧ row.turnId = read.turnId := by
      rcases List.mem_append.mp hread with hold | hnew
      · exact h.reads read hold
      · obtain rfl := Degrading.read.inj (List.mem_singleton.mp hnew)
        exact ⟨h.sound read hstate, read, hstate, rfl, rfl, rfl⟩
    exact ⟨⟨hsound.1.valid, hsound.1.known, hsound.1.numbered⟩, hsound.2⟩
  | degradeNext call now =>
    rcases degradeNext_cases hstep with ⟨state, hcall, rfl⟩ | ⟨agentRunId, -, rfl⟩
    · exact h.writeDegraded hcall
    · exact h.markRunDegraded call agentRunId now

end Paired

/-- The port once the row of a later attempt of an ended run is there and its launch is announced,
which is stored before the host is started. -/
structure Retried (port : Port) (request : AgentRunRequestEnvelope) (attempt : RunAttemptRequest)
    (before : AgentRuntimeStore) : Prop where
  reached : ∃ writes, Run AgentRuntimeStore.step (fun _ _ => True) .empty writes before
  ended : ∃ state ∈ before.states, state.agentRunId = request.agentRunId ∧
    state.status.isTerminal = true
  newest : ∀ row ∈ before.attempts, row.agentRunId = request.agentRunId →
    row.attemptNumber < attempt.attemptNumber
  announced : ∃ persisted started timestamp eventId now,
    before.persistRetryAttemptBeforeLaunch request.toAgentRunRequest attempt.runAttemptId
      attempt.attemptNumber now = .ok persisted.store ∧
    eventId ∉ request.input.messageId :: before.events.map (·.eventId) ∧
    Port.append persisted request attempt ⟨.lifecycleChanged .starting, [], timestamp, eventId⟩ =
      (started, .ok ()) ∧
    port.store = started.store

def HostEvent.isStarted (event : HostEvent) : Bool :=
  match event.payload with
  | .started .. => true
  | _ => false

def HostEvent.isEnd (event : HostEvent) : Bool :=
  match event.payload with
  | .terminal status _ _ => status.isTerminal
  | _ => false

/-- The ids that the host has chosen for an event. -/
def HostEvent.ids (fresh : ℕ) (event : HostEvent) : List ℕ :=
  match event.payload with
  | .started .. => [event.eventId]
  | .mapped _ _ eventId _ => [eventId]
  | .terminal _ _ errorEventId => [errorEventId.getD fresh, event.eventId]

/-- What the events of an attempt make of its status. -/
def Port.ownStatus (port : Port) (attempt : RunAttemptRequest) : AgentRunStatus :=
  attemptStatus (port.store.eventsOfAttempt attempt.runAttemptId)

section Delivery
variable {port : Port} {request : AgentRunRequestEnvelope} {attempt : RunAttemptRequest}
  {before : AgentRuntimeStore} {state : RunState} {body : EventBody} {ids : List ℕ} {ended : Bool}

/-- The newest attempt of a run, which shows the status of the events of the attempt; `ids` are not
stored yet. -/
structure Opened (port : Port) (request : AgentRunRequestEnvelope) (attempt : RunAttemptRequest)
    (ended : Bool) (ids : List ℕ) : Prop where
  ready : ∃ state, Ready port request attempt state ∧ state.status = port.ownStatus attempt ∧
    state.lastRunAttemptNumber = attempt.attemptNumber
  ended : ended = true → (port.ownStatus attempt).isTerminal = true
  unstored : ∀ id ∈ ids, id ∉ port.store.events.map (·.eventId)

theorem Opened.status? (h : Opened port request attempt ended ids) :
    port.status? request.agentRunId = some (port.ownStatus attempt) := by
  obtain ⟨state, hready, hstatus, -⟩ := h.ready
  unfold Port.status? Port.query
  rw [hready.found, ← hstatus]
  rfl

theorem Opened.weaken {ids' : List ℕ} (h : Opened port request attempt ended ids) (hids : ids' ⊆ ids) :
    Opened port request attempt false ids' :=
  ⟨h.ready, fun hfalse => (Bool.false_ne_true hfalse).elim, fun id hid => h.unstored id (hids hid)⟩

theorem Opened.congr {port' : Port} (h : Opened port request attempt ended ids)
    (hstore : port'.store = port.store) : Opened port' request attempt ended ids := by
  obtain ⟨state, hready, hshows⟩ := h.ready
  have hnext : port'.nextSequence attempt.runAttemptId = port.nextSequence attempt.runAttemptId := by
    rw [Port.nextSequence, hstore]
    rfl
  have hown : port'.ownStatus attempt = port.ownStatus attempt := by
    rw [Port.ownStatus, hstore]
    rfl
  refine ⟨⟨state, ⟨?_, hready.valid, hready.sessionId, hready.turnId, hready.number_pos, ?_, ?_⟩, ?_⟩,
    ?_, ?_⟩
  · rw [hstore]
    exact hready.found
  · rw [hnext]
    exact hready.newest
  · rw [hstore]
    exact hready.refers
  · rw [hown]
    exact hshows
  · rw [hown]
    exact h.ended
  · rw [hstore]
    exact h.unstored

theorem ownStatus_appended : (port.appended request attempt body state).ownStatus attempt =
    attemptStatus (port.store.eventsOfAttempt attempt.runAttemptId ++
      [port.envelope request attempt body (port.nextSequence attempt.runAttemptId)]) := by
  rw [Port.ownStatus, Port.appended]
  simp only
  rw [eventsOfAttempt_projected]
  exact congrArg _ (congrArg _ (if_pos rfl))

theorem next_status : (port.next request attempt body state).status = state.nextStatus
    (decide (state.lastRunAttemptNumber < attempt.attemptNumber)) body.payload := by
  obtain ⟨_, _, _, _, _, hnext, -, -⟩ := state.accept_eq
    (port.envelope request attempt body (port.nextSequence attempt.runAttemptId))
    (decide (state.lastRunAttemptNumber < attempt.attemptNumber))
  rw [Port.next, hnext]
  rfl

theorem next_number : (port.next request attempt body state).lastRunAttemptNumber =
    attempt.attemptNumber := by
  obtain ⟨hcursor, -, -⟩ := state.accept_reaches
    (port.envelope request attempt body (port.nextSequence attempt.runAttemptId))
    (decide (state.lastRunAttemptNumber < attempt.attemptNumber))
  exact congrArg (fun p => (ofLex p).1) hcursor

theorem unstored_appended (hunstored : ∀ id ∈ body.eventId :: ids, id ∉ port.store.events.map (·.eventId))
    (hid : body.eventId ∉ ids) :
    ∀ id ∈ ids, id ∉ (port.appended request attempt body state).store.events.map (·.eventId) := by
  intro id hmem hstored
  rw [Port.appended] at hstored
  simp only [AgentRuntimeStore.projected, List.map_append, List.map_singleton, List.mem_append,
    List.mem_singleton] at hstored
  rcases hstored with hold | hnew
  · exact hunstored id (List.mem_cons_of_mem _ hmem) hold
  · have hbody : id = body.eventId := hnew
    exact hid (hbody ▸ hmem)

/-- An event is stored and counts for the status of the attempt, unless its sequence is too great. -/
theorem Opened.append (h : Opened port request attempt ended (body.eventId :: ids))
    (hid : body.eventId ∉ ids) :
    (∃ port', port.append request attempt body = (port', .ok ()) ∧
        Opened port' request attempt (ended || body.payload.lifecycle.any AgentRunStatus.isTerminal)
          ids) ∨
      port.append request attempt body = (port, .error (.unavailable .serialization)) := by
  obtain ⟨state, hready, hstatus, hnumber⟩ := h.ready
  have hfresh := h.unstored body.eventId List.mem_cons_self
  by_cases hroom : port.nextSequence attempt.runAttemptId ≤ maxSequence
  · left
    refine ⟨port.appended request attempt body state, by rw [Port.append, hready.append hfresh hroom],
      ⟨_, hready.next, ?_, next_number⟩, ?_, unstored_appended h.unstored hid⟩
    · rw [next_status, ownStatus_appended, attemptStatus_concat, RunState.nextStatus, hstatus]
      cases hlifecycle : body.payload.lifecycle with
      | none => simp [Port.envelope, hlifecycle, Port.ownStatus]
      | some announced => simp [Port.envelope, hlifecycle, Port.ownStatus, hnumber]
    · intro hended
      rw [ownStatus_appended, attemptStatus_ended, List.any_append, Bool.or_eq_true]
      rcases Bool.or_eq_true_iff.mp hended with hbefore | hnow
      · left
        rw [← attemptStatus_ended]
        exact h.ended hbefore
      · right
        simpa [AgentEventEnvelope.isFinish, Port.envelope] using hnow
  · right
    rw [Port.append, hready.append_full hfresh (by omega)]

/-- What the delivery of events comes to: it goes through or a sequence is too great. -/
def Settled (request : AgentRunRequestEnvelope) (attempt : RunAttemptRequest) (ended : Bool)
    (ids : List ℕ) (result : PortResult) : Prop :=
  (result.2 = .ok () ∧ Opened result.1 request attempt ended ids) ∨
    (result.2 = .error (.unavailable .serialization) ∧ Opened result.1 request attempt false ids)

theorem settled_andThen {ids' : List ℕ} {ended' : Bool} {result : PortResult}
    {rest : Port → PortResult} (h : Settled request attempt ended ids result) (hids : ids' ⊆ ids)
    (hrest : ∀ port, Opened port request attempt ended ids →
      Settled request attempt ended' ids' (rest port)) :
    Settled request attempt ended' ids' (result.andThen rest) := by
  unfold PortResult.andThen
  rcases h with ⟨hok, hopened⟩ | ⟨hfull, hopened⟩
  · rw [hok]
    exact hrest result.1 hopened
  · rw [hfull]
    exact .inr ⟨rfl, hopened.weaken hids⟩

theorem Opened.settled (h : Opened port request attempt ended ids) :
    Settled request attempt ended ids port.done := .inl ⟨rfl, h⟩

theorem Opened.settled_append (h : Opened port request attempt ended (body.eventId :: ids))
    (hid : body.eventId ∉ ids) :
    Settled request attempt (ended || body.payload.lifecycle.any AgentRunStatus.isTerminal) ids
      (port.append request attempt body) := by
  rcases h.append hid with ⟨port', happend, hopened⟩ | hfull
  · rw [happend]
    exact .inl ⟨rfl, hopened⟩
  · rw [hfull]
    exact .inr ⟨rfl, h.weaken (List.subset_cons_self _ _)⟩

theorem Settled.weaken {ids' : List ℕ} {result : PortResult}
    (h : Settled request attempt ended ids result) (hids : ids' ⊆ ids) {ended' : Bool}
    (hended : ended' = true → ended = true) : Settled request attempt ended' ids' result := by
  rcases h with ⟨hok, hopened⟩ | ⟨hfull, hopened⟩
  · exact .inl ⟨hok, hopened.ready, fun h => hopened.ended (hended h),
      fun id hid => hopened.unstored id (hids hid)⟩
  · exact .inr ⟨hfull, hopened.weaken hids⟩

theorem Opened.appendMappedEvent (h : Opened port request attempt ended (body.eventId :: ids))
    (hid : body.eventId ∉ ids) :
    Settled request attempt ended ids (port.appendMappedEvent request attempt body) := by
  unfold Port.appendMappedEvent
  split_ifs
  · exact h.settled.weaken (List.subset_cons_self _ _) id
  · exact (h.settled_append hid).weaken (List.Subset.refl _) fun hended => by rw [hended, Bool.true_or]

theorem preferCancellationTerminal_ends {status : AgentRunStatus} (exited : Bool)
    (h : status.isTerminal = true) : (preferCancellationTerminal status exited).isTerminal = true := by
  cases status with
  | crashed => cases exited <;> rfl
  | auditFailed => rfl
  | cancelled => rfl
  | succeeded => rfl
  | failed => rfl
  | _ => cases h

theorem terminalStatus_ends {status : AgentRunStatus} (h : status.isTerminal = true) :
    (port.terminalStatus request attempt status).isTerminal = true := by
  unfold Port.terminalStatus
  split_ifs
  · exact preferCancellationTerminal_ends _ h
  · exact h

/-- The end of a process is the end of the attempt, unless that has ended before. -/
theorem Opened.appendTerminal {status : AgentRunStatus} {timestamp eventId : ℕ}
    (h : Opened port request attempt ended (eventId :: ids)) (hid : eventId ∉ ids) :
    Settled request attempt (ended || status.isTerminal) ids
      (port.appendTerminal request attempt status timestamp eventId) := by
  unfold Port.appendTerminal
  rw [h.status?, Option.any_some]
  split_ifs with hdone
  · exact .inl ⟨rfl, h.ready, fun _ => hdone, fun id hid => h.unstored id (List.mem_cons_of_mem _ hid)⟩
  · exact @Opened.settled_append port request attempt ⟨.lifecycleChanged status, [], timestamp, eventId⟩
      ids ended h hid

theorem Opened.applyTerminal {fresh : ℕ} {event : HostEvent} {error : Option AgentRuntimeError}
    {errorEventId : Option ℕ} {status : AgentRunStatus}
    (h : Opened port request attempt ended (errorEventId.getD fresh :: event.eventId :: ids))
    (hnodup : (errorEventId.getD fresh :: event.eventId :: ids).Nodup) :
    Settled request attempt (ended || status.isTerminal) ids
      (port.applyTerminal request attempt fresh event status error errorEventId) := by
  rw [List.nodup_cons, List.nodup_cons] at hnodup
  obtain ⟨herrorId, hevent, -⟩ := hnodup
  have herror : Settled request attempt ended (event.eventId :: ids) (port.appendError request attempt
      (port.terminalStatus request attempt status) error event.timestamp
      (errorEventId.getD fresh)) := by
    have hquiet := h.settled.weaken (List.subset_cons_self _ _) id
    unfold Port.appendError
    cases error with
    | none => exact hquiet
    | some error =>
      simp only
      split_ifs
      · exact hquiet
      · exact (h.settled_append herrorId).weaken (List.Subset.refl _) fun hended => by
          rw [hended, Bool.true_or]
  unfold Port.applyTerminal
  refine settled_andThen (settled_andThen herror (List.subset_cons_self _ _) fun port' hopened =>
    hopened.appendTerminal hevent) (List.Subset.refl _) ?_
  intro port' hopened
  have hended : Opened port' request attempt (ended || status.isTerminal) ids := by
    refine ⟨hopened.ready, fun h => hopened.ended ?_, hopened.unstored⟩
    rcases Bool.or_eq_true_iff.mp h with hbefore | hnow
    · rw [hbefore, Bool.true_or]
    · rw [terminalStatus_ends hnow, Bool.or_true]
  split_ifs
  · have hexited : Opened (port'.markProcessExited attempt.runAttemptId) request attempt
        (ended || status.isTerminal) ids := hended.congr rfl
    exact hexited.settled
  · exact hended.settled

theorem Opened.applyHostEvent {fresh : ℕ} {event : HostEvent}
    (h : Opened port request attempt ended (event.ids fresh ++ ids))
    (hnodup : (event.ids fresh ++ ids).Nodup) (hstarted : event.isStarted = false) :
    Settled request attempt (ended || event.isEnd) ids
      (port.applyHostEvent request attempt fresh event) := by
  unfold Port.applyHostEvent
  unfold HostEvent.ids at h hnodup
  unfold HostEvent.isStarted at hstarted
  unfold HostEvent.isEnd
  cases hpayload : event.payload with
  | started pid inputRef => simp [hpayload] at hstarted
  | mapped payload timestamp eventId nativeRef =>
    rw [hpayload] at h hnodup
    simp only [List.singleton_append, List.nodup_cons] at h hnodup
    exact (Opened.appendMappedEvent h hnodup.1).weaken (List.Subset.refl _) fun hended => by
      rwa [Bool.or_false] at hended
  | terminal status error errorEventId =>
    rw [hpayload] at h hnodup
    exact Opened.applyTerminal h hnodup

theorem Opened.applyHostEvents {fresh : ℕ} {journal : List HostEvent}
    (h : Opened port request attempt ended (journal.flatMap (·.ids fresh)))
    (hnodup : (journal.flatMap (·.ids fresh)).Nodup)
    (hstarted : ∀ event ∈ journal, event.isStarted = false) :
    Settled request attempt (ended || journal.any (·.isEnd)) []
      (port.applyHostEvents request attempt fresh journal) := by
  induction journal generalizing port ended with
  | nil =>
    rw [List.any_nil, Bool.or_false]
    exact h.settled
  | cons event rest ih =>
    rw [List.flatMap_cons] at h hnodup
    have hfirst := h.applyHostEvent hnodup (hstarted event List.mem_cons_self)
    apply settled_andThen hfirst (List.nil_subset _)
    intro port' hopened
    rw [List.any_cons, ← Bool.or_assoc]
    exact ih hopened (List.nodup_append.mp hnodup).2.1
      fun other hother => hstarted other (List.mem_cons_of_mem _ hother)

/-- The start of an attempt whose input is not stored yet. -/
theorem Opened.applyStarted {event : HostEvent} {pid : ℕ} {inputRef : NativeAuditReference}
    (h : Opened port request attempt ended (request.input.messageId :: event.eventId :: ids))
    (hnodup : (request.input.messageId :: event.eventId :: ids).Nodup) :
    Settled request attempt ended ids (port.applyStarted request attempt event pid inputRef) := by
  rw [List.nodup_cons, List.nodup_cons] at hnodup
  obtain ⟨hinput, hevent, -⟩ := hnodup
  have hmarked : Opened (port.markProcessStarted attempt.runAttemptId pid) request attempt ended
      (request.input.messageId :: event.eventId :: ids) := h.congr rfl
  unfold Port.applyStarted
  refine settled_andThen (@Opened.settled_append _ request attempt (Port.inputBody request inputRef)
    (event.eventId :: ids) ended hmarked hinput) (List.subset_cons_self _ _) ?_
  intro port' hopened
  refine (@Opened.settled_append port' request attempt
    ⟨.lifecycleChanged .running, [], event.timestamp, event.eventId⟩ ids _ hopened hevent).weaken
    (List.Subset.refl _) fun hended => by rw [hended, Bool.true_or, Bool.true_or]

theorem Retried.paired (h : Retried port request attempt before) : Paired before := by
  obtain ⟨writes, hrun⟩ := h.reached
  exact hrun.invariant (fun _ _ _ hpaired _ hstep => Paired.step hpaired hstep) Paired.empty

theorem Retried.ready (h : Retried port request attempt before) {persisted : Port} {now : ℕ}
    (hpersisted : before.persistRetryAttemptBeforeLaunch request.toAgentRunRequest
      attempt.runAttemptId attempt.attemptNumber now = .ok persisted.store) :
    ∃ state, Ready persisted request attempt state ∧
      state.lastRunAttemptNumber < attempt.attemptNumber := by
  have hpaired := h.paired
  obtain ⟨state, hstate, hrun, -⟩ := h.ended
  obtain ⟨hnumber, ⟨run, hmem, hid, hsession, hturn⟩, -, hstore⟩ := persistRetry_ok hpersisted
  obtain ⟨row, hrow, hrowRun, hrowSession, hrowTurn⟩ := hpaired.run run hmem
  have hsame : row = state := hpaired.unique hrow hstate (by rw [hrowRun, hid, hrun])
  rw [hsame] at hrowSession hrowTurn
  have hlater : state.lastRunAttemptNumber < attempt.attemptNumber := by
    rcases (hpaired.sound state hstate).numbered with hzero | ⟨row, hrow, hrowRun, hrowNumber⟩
    · omega
    · rw [← hrowNumber]
      exact h.newest row hrow (hrowRun.trans hrun)
  refine ⟨state, ?_, hlater⟩
  constructor
  case found =>
    rw [hstore]
    apply find_unique hstate (decide_eq_true hrun)
    intro other hother hotherRun
    exact hpaired.unique hother hstate ((of_decide_eq_true hotherRun).trans hrun.symm)
  case valid => exact (hpaired.sound state hstate).valid
  case sessionId => exact hrowSession.trans hsession
  case turnId => exact hrowTurn.trans hturn
  case number_pos => omega
  case newest => exact .inl hlater
  case refers =>
    intro body sequence
    rw [hstore]
    unfold AgentRuntimeStore.refers
    rw [Bool.and_eq_true, List.any_eq_true, List.any_eq_true]
    constructor
    · exact ⟨run, hmem, decide_eq_true ⟨hid, hsession, hturn⟩⟩
    · exact ⟨_, List.mem_append_right _ (List.mem_singleton_self _),
        decide_eq_true ⟨rfl, rfl, rfl, rfl⟩⟩

theorem Retried.foreign (h : Retried port request attempt before) :
    ∀ event ∈ before.events, event.runAttemptId ≠ attempt.runAttemptId := by
  obtain ⟨persisted, _, _, _, now, hpersisted, -, -, -⟩ := h.announced
  obtain ⟨-, -, hkeys, -⟩ := persistRetry_ok hpersisted
  intro event hevent hsame
  obtain ⟨row, hrow, hid⟩ := h.paired.refers event hevent
  exact (hkeys row hrow).1 (hid.trans hsame)

/-- The announcement opens the attempt, and is the only event stored beside the earlier ones. -/
theorem Retried.opened (h : Retried port request attempt before) :
    Opened port request attempt false [] ∧ ∃ announcement : AgentEventEnvelope,
      port.store.events = before.events ++ [announcement] ∧
        announcement.eventId ≠ request.input.messageId := by
  have hforeign := h.foreign
  obtain ⟨persisted, started, timestamp, eventId, now, hpersisted, hunused, happend, hport⟩ := h.announced
  obtain ⟨state, hready, hlater⟩ := h.ready hpersisted
  obtain ⟨-, -, -, hstore⟩ := persistRetry_ok hpersisted
  rw [List.mem_cons, not_or] at hunused
  obtain ⟨hinput, hunstored⟩ := hunused
  let body : EventBody := ⟨.lifecycleChanged .starting, [], timestamp, eventId⟩
  have hfresh : body.eventId ∉ persisted.store.events.map (·.eventId) := by
    rw [hstore]
    exact hunstored
  have hnone : persisted.store.eventsOfAttempt attempt.runAttemptId = [] := by
    rw [AgentRuntimeStore.eventsOfAttempt, List.filter_eq_nil_iff, hstore]
    intro event hevent hsame
    exact hforeign event hevent (of_decide_eq_true hsame)
  have hroom : persisted.nextSequence attempt.runAttemptId ≤ maxSequence := by
    rw [Port.nextSequence, hnone]
    decide
  have hstarted : persisted.append request attempt body =
      (persisted.appended request attempt body state, .ok ()) := by
    rw [Port.append, hready.append hfresh hroom]
  obtain rfl : persisted.appended request attempt body state = started :=
    congrArg Prod.fst (hstarted.symm.trans happend)
  constructor
  · have hopened : Opened (persisted.appended request attempt body state) request attempt false [] := by
      refine ⟨⟨_, hready.next, ?_, next_number⟩, fun hfalse => (Bool.false_ne_true hfalse).elim,
        fun _ hid => absurd hid List.not_mem_nil⟩
      rw [next_status, ownStatus_appended, hnone, decide_eq_true hlater]
      rfl
    exact hopened.congr hport
  · refine ⟨persisted.envelope request attempt body (persisted.nextSequence attempt.runAttemptId), ?_,
      hinput⟩
    rw [hport, Port.appended]
    simp only [AgentRuntimeStore.projected]
    rw [hstore]

/-- An input that an earlier attempt has stored is refused. -/
theorem Retried.refused (h : Retried port request attempt before) {event : HostEvent} {pid : ℕ}
    {inputRef : NativeAuditReference}
    (hinput : request.input.messageId ∈ before.events.map (·.eventId)) :
    (port.applyStarted request attempt event pid inputRef).2 =
      .error (Port.reused request.input.messageId) := by
  have hforeign := h.foreign
  obtain ⟨-, announcement, hevents, hannouncement⟩ := h.opened
  obtain ⟨stored, hstored, hid⟩ := List.mem_map.mp hinput
  have hrefused : (port.markProcessStarted attempt.runAttemptId pid).append request attempt
      (Port.inputBody request inputRef) = (port.markProcessStarted attempt.runAttemptId pid,
        .error (Port.reused request.input.messageId)) := by
    unfold Port.append Port.appendEvent
    cases hfind : (port.markProcessStarted attempt.runAttemptId pid).store.events.find?
        (·.eventId = (Port.inputBody request inputRef).eventId) with
    | none =>
      have hmem : stored ∈ port.store.events := by
        rw [hevents]
        exact List.mem_append_left _ hstored
      exact absurd (decide_eq_true hid) (List.find?_eq_none.mp hfind stored hmem)
    | some existing =>
      have hmem : existing ∈ port.store.events := List.mem_of_find?_eq_some hfind
      have hfound := List.find?_some hfind
      have hsame : existing.eventId = request.input.messageId := of_decide_eq_true hfound
      have hearlier : existing ∈ before.events := by
        rw [hevents] at hmem
        rcases List.mem_append.mp hmem with hbefore | hnew
        · exact hbefore
        · rw [List.mem_singleton.mp hnew] at hsame
          exact absurd hsame hannouncement
      have hne : (port.markProcessStarted attempt.runAttemptId pid).envelope request attempt
          (Port.inputBody request inputRef) existing.sequence ≠ existing := by
        intro heq
        exact hforeign existing hearlier (congrArg AgentEventEnvelope.runAttemptId heq).symm
      simp only [if_neg hne]
      rfl
  unfold Port.applyStarted
  rw [hrefused]
  rfl

end Delivery

section Sample

end Sample

end VibeKanban.Agent
