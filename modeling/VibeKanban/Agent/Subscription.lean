import VibeKanban.Agent.Port

/-! A subscriber of an AgentRun: the stored events first, then those of a bounded channel that it did not
read there. -/
namespace VibeKanban.Agent
open Lib

/-- What the channel of a run keeps for a slow receiver. -/
def channelCapacity : ℕ := 256

/-- Where a subscriber stands: `next` is the place in the channel of what it receives next. -/
inductive Reader where
  | none
  | subscribed (next : ℕ)
  | streaming (history : List AgentEventEnvelope) (next : ℕ) (seen : List ℕ)
  deriving DecidableEq, Repr

/-- The port beside the channel of one run and a subscriber. `unsent` is stored and not yet sent, `sent`
is all that the channel has been given since the process began. -/
structure SubscriptionState where
  port : Port
  unsent : Option AgentEventEnvelope
  sent : List AgentEventEnvelope
  reader : Reader
  output : List AgentEventEnvelope
  deriving DecidableEq, Repr

inductive SubscriptionAction where
  | launch (request : AgentRunRequest) (runAttemptId attemptNumber now : ℕ)
  | retry (request : AgentRunRequest) (runAttemptId attemptNumber now : ℕ)
  | degrade (agentRunId : ℕ)
  | degradeNext (call now : ℕ)
  | link (link : OrchestrationLink)
  | append (request : AgentRunRequestEnvelope) (attempt : RunAttemptRequest) (body : EventBody)
  | send
  | restart
  | subscribe
  | readHistory
  | next
  deriving DecidableEq, Repr

def inOrder (events : List AgentEventEnvelope) : List AgentEventEnvelope :=
  events.mergeSort fun a b =>
    decide (toLex (a.runAttemptNumber, a.sequence) ≤ toLex (b.runAttemptNumber, b.sequence))

namespace SubscriptionState

def init : SubscriptionState := ⟨⟨.empty, [], []⟩, .none, [], .none, []⟩

def write (s : SubscriptionState) (write : RuntimeWrite) : Option SubscriptionState :=
  (s.port.store.step write).map fun store => { s with port := { s.port with store } }

/-- What the channel of a run is still to be given. -/
def pending (agentRunId : ℕ) (s : SubscriptionState) : List AgentEventEnvelope :=
  s.unsent.toList.filter (·.agentRunId = agentRunId)

def ahead (s : SubscriptionState) (next : ℕ) : ℕ := s.sent.length - next

/-- The subscriber takes the next event; after a lag it goes on with the oldest event kept. -/
def receive (s : SubscriptionState) (next : ℕ) (seen : List ℕ) : Option SubscriptionState :=
  if channelCapacity < s.ahead next then
    some { s with reader := .streaming [] (s.sent.length - channelCapacity) seen }
  else match s.sent[next]? with
    | none => none
    | some event =>
      if event.eventId ∈ seen then some { s with reader := .streaming [] (next + 1) seen }
      else some { s with
        reader := .streaming [] (next + 1) (event.eventId :: seen)
        output := s.output ++ [event] }

/-- A new process, without the calls of the old one. -/
def restarted (s : SubscriptionState) : SubscriptionState :=
  let store := { s.port.store with degrading := [] }
  { s with port := { s.port with store }, unsent := none, sent := [], reader := .none, output := [] }

/-- An event is stored and sent under one lock. -/
def step (agentRunId : ℕ) (s : SubscriptionState) : SubscriptionAction → Option SubscriptionState
  | .launch request runAttemptId attemptNumber now =>
    s.write (.persistBeforeLaunch request runAttemptId attemptNumber now)
  | .retry request runAttemptId attemptNumber now =>
    s.write (.persistRetryAttemptBeforeLaunch request runAttemptId attemptNumber now)
  | .degrade agentRunId => s.write (.markProjectionDegraded agentRunId)
  | .degradeNext call now => s.write (.degradeNext call now)
  | .link link =>
    if (s.port.link? link.agentRunId).isSome then none
    else some { s with port := { s.port with links := s.port.links ++ [link] } }
  | .append request attempt body =>
    if s.unsent.isSome then none
    else match s.port.appendEvent request attempt body with
      | .error _ => none
      | .ok (unsent, port) => some { s with port, unsent }
  | .send =>
    if s.unsent.isSome then some { s with unsent := none, sent := s.sent ++ s.pending agentRunId }
    else none
  | .restart => some s.restarted
  | .subscribe =>
    match s.reader, s.port.query agentRunId with
    | .none, .ok _ => some { s with reader := .subscribed s.sent.length }
    | _, _ => none
  | .readHistory =>
    match s.reader with
    | .subscribed next =>
      let history := inOrder (s.port.store.eventsOf agentRunId)
      some { s with reader := .streaming history next (history.map (·.eventId)) }
    | _ => none
  | .next =>
    match s.reader with
    | .streaming (event :: rest) next seen =>
      some { s with reader := .streaming rest next seen, output := s.output ++ [event] }
    | .streaming [] next seen => s.receive next seen
    | _ => none

def streams (s : SubscriptionState) : Bool :=
  match s.reader with
  | .streaming .. => true
  | _ => false

/-- Every stored event once and in order: what has been delivered is a beginning of the log, and a
subscriber that has to wait has all of it. -/
def Delivers (agentRunId : ℕ) (s : SubscriptionState) : Prop :=
  s.output <+: inOrder (s.port.store.eventsOf agentRunId) ∧
    (s.output.map (·.eventId)).Nodup ∧
    (s.streams = true → s.unsent = none → s.step agentRunId .next = none →
      s.output = inOrder (s.port.store.eventsOf agentRunId))

/-- The channel still holds what the subscriber takes next, and no state of a run is written back that
has changed since it was read. -/
def KeepsUp (s : SubscriptionState) : SubscriptionAction → Prop
  | .next => ∀ next seen, s.reader = .streaming [] next seen → s.ahead next ≤ channelCapacity
  | .degradeNext call _ => s.port.store.ReadsCurrent call
  | _ => True

/-- What the subscriber has of the log of its run, whose last events are those of the channel; it has
read at least as far as it stands in the channel. -/
def Reads (log before : List AgentEventEnvelope) (s : SubscriptionState) : Prop :=
  match s.reader with
  | .none => s.output = []
  | .subscribed next => s.output = [] ∧ next ≤ s.sent.length
  | .streaming history next seen => next ≤ s.sent.length ∧ ∃ count, count ≤ log.length ∧
      s.output ++ history = log.take count ∧ before.length + next ≤ count ∧
      ∀ id, id ∈ seen ↔ id ∈ (log.take count).map (·.eventId)

structure Spliced (agentRunId : ℕ) (s : SubscriptionState) : Prop where
  stored : Stored s.port.store
  log : ∃ before, s.port.store.eventsOf agentRunId = before ++ (s.sent ++ s.pending agentRunId) ∧
    s.Reads (s.port.store.eventsOf agentRunId) before

section Splice
variable {agentRunId : ℕ} {s s' : SubscriptionState}

theorem inOrder_eventsOf {store : AgentRuntimeStore} (h : Stored store) :
    inOrder (store.eventsOf agentRunId) = store.eventsOf agentRunId := by
  apply List.mergeSort_of_pairwise
  apply (h.sorted agentRunId).imp
  intro a b hlt
  simpa using hlt.le

theorem Spliced.init : Spliced agentRunId .init :=
  ⟨Stored.empty, [], rfl, rfl⟩

theorem Spliced.write (h : Spliced agentRunId s) {write : RuntimeWrite}
    (hstep : s.write write = some s') (hcurrent : WritesCurrent s.port.store write)
    (hevents : ∀ store, s.port.store.step write = some store →
      store.events = s.port.store.events) : Spliced agentRunId s' := by
  obtain ⟨store, hstore, rfl⟩ := Option.map_eq_some_iff.mp hstep
  obtain ⟨before, hlog, hreads⟩ := h.log
  have hsame : store.eventsOf agentRunId = s.port.store.eventsOf agentRunId := by
    rw [AgentRuntimeStore.eventsOf, AgentRuntimeStore.eventsOf, hevents store hstore]
  refine ⟨h.stored.step hcurrent hstore, before, ?_, ?_⟩
  · simp only
    rw [hsame]
    exact hlog
  · simp only
    rw [hsame]
    exact hreads

theorem Reads.append {log before more : List AgentEventEnvelope} (h : Reads log before s)
    {port : Port} {unsent : Option AgentEventEnvelope} :
    Reads (log ++ more) before { s with port, unsent } := by
  unfold Reads at h ⊢
  cases hreader : s.reader with
  | none =>
    rw [hreader] at h
    exact h
  | subscribed next =>
    rw [hreader] at h
    exact h
  | streaming history next seen =>
    rw [hreader] at h
    obtain ⟨hnext, count, hcount, hread, hchannel, hseen⟩ := h
    have htake : (log ++ more).take count = log.take count := List.take_append_of_le_length hcount
    refine ⟨hnext, count, ?_, ?_, hchannel, ?_⟩
    · rw [List.length_append]
      omega
    · rw [htake]
      exact hread
    · rw [htake]
      exact hseen

theorem Reads.send {log before more : List AgentEventEnvelope} (h : Reads log before s) :
    Reads log before { s with unsent := none, sent := s.sent ++ more } := by
  unfold Reads at h ⊢
  cases hreader : s.reader with
  | none =>
    rw [hreader] at h
    exact h
  | subscribed next =>
    rw [hreader] at h
    simp only [List.length_append]
    exact ⟨h.1, by omega⟩
  | streaming history next seen =>
    rw [hreader] at h
    simp only [List.length_append]
    exact ⟨by omega, h.2⟩

theorem Spliced.append (h : Spliced agentRunId s) {request : AgentRunRequestEnvelope}
    {attempt : RunAttemptRequest} {body : EventBody} {unsent : Option AgentEventEnvelope}
    {port : Port} (hnone : s.unsent = none)
    (happend : s.port.appendEvent request attempt body = .ok (unsent, port)) :
    Spliced agentRunId { s with port, unsent } := by
  obtain ⟨before, hlog, hreads⟩ := h.log
  rw [pending, hnone, Option.toList_none, List.filter_nil, List.append_nil] at hlog
  rcases Port.appendEvent_cases h.stored happend with ⟨rfl, rfl⟩ | ⟨rfl, -, -, hstored, hevents⟩
  · refine ⟨h.stored, before, ?_, ?_⟩
    · rw [hlog]
      simp [pending]
    · rw [← hnone]
      exact hreads
  · have hmore : port.store.eventsOf agentRunId = s.port.store.eventsOf agentRunId ++
        [s.port.envelope request attempt body
          (s.port.nextSequence attempt.runAttemptId)].filter (·.agentRunId = agentRunId) := by
      rw [AgentRuntimeStore.eventsOf, hevents, List.filter_append, AgentRuntimeStore.eventsOf]
    refine ⟨hstored, before, ?_, ?_⟩
    · simp only
      rw [hmore, hlog, List.append_assoc]
      rfl
    · simp only
      rw [hmore]
      exact hreads.append

theorem Spliced.send (h : Spliced agentRunId s) : Spliced agentRunId
    { s with unsent := none, sent := s.sent ++ s.pending agentRunId } := by
  obtain ⟨before, hlog, hreads⟩ := h.log
  refine ⟨h.stored, before, ?_, hreads.send⟩
  simp only
  rw [hlog]
  simp [pending]

/-- An id does not come back behind its place. -/
theorem not_mem_take {log : List AgentEventEnvelope} (hids : (log.map (·.eventId)).Nodup)
    {count : ℕ} {event : AgentEventEnvelope} (hevent : log[count]? = some event) :
    event.eventId ∉ (log.take count).map (·.eventId) := by
  intro hmem
  obtain ⟨hlt, hplace⟩ := List.getElem?_eq_some_iff.mp hevent
  rw [← List.take_append_drop count log, List.map_append] at hids
  have hdrop : event ∈ log.drop count := by
    rw [List.drop_eq_getElem_cons hlt, hplace]
    exact List.mem_cons_self
  exact List.disjoint_of_nodup_append hids hmem (List.mem_map_of_mem hdrop)

/-- The next event of the channel is the first one that has not been read, or has been read. -/
theorem Spliced.receive (h : Spliced agentRunId s) {next : ℕ} {seen : List ℕ}
    (hreader : s.reader = .streaming [] next seen) (hahead : s.ahead next ≤ channelCapacity)
    (hstep : s.receive next seen = some s') : Spliced agentRunId s' := by
  obtain ⟨before, hlog, hreads⟩ := h.log
  unfold Reads at hreads
  rw [hreader] at hreads
  obtain ⟨hnext, count, hcount, hread, hchannel, hseen⟩ := hreads
  unfold SubscriptionState.receive at hstep
  rw [if_neg (by omega)] at hstep
  cases hevent : s.sent[next]? with
  | none =>
    rw [hevent] at hstep
    cases hstep
  | some event =>
    rw [hevent] at hstep
    simp only at hstep
    obtain ⟨hlt, -⟩ := List.getElem?_eq_some_iff.mp hevent
    have hplace : (s.port.store.eventsOf agentRunId)[before.length + next]? = some event := by
      rw [hlog, List.getElem?_append_right (Nat.le_add_right _ _), Nat.add_sub_cancel_left,
        List.getElem?_append_left hlt, hevent]
    have hids : ((s.port.store.eventsOf agentRunId).map (·.eventId)).Nodup :=
      h.stored.ids.sublist (List.filter_sublist.map _)
    rcases Nat.lt_or_eq_of_le hchannel with hearlier | hhere
    · -- the event was among those read
      have hknown : event.eventId ∈ seen := by
        rw [hseen]
        apply List.mem_map_of_mem
        apply List.mem_of_getElem? (i := before.length + next)
        rw [List.getElem?_take_of_lt hearlier, hplace]
      rw [if_pos hknown] at hstep
      obtain rfl := Option.some.inj hstep
      exact ⟨h.stored, before, hlog, hlt, count, hcount, hread, hearlier, hseen⟩
    · rw [hhere] at hplace
      have hnew : event.eventId ∉ seen := by
        rw [hseen]
        exact not_mem_take hids hplace
      rw [if_neg hnew] at hstep
      obtain rfl := Option.some.inj hstep
      obtain ⟨hltLog, -⟩ := List.getElem?_eq_some_iff.mp hplace
      have htake : (s.port.store.eventsOf agentRunId).take (count + 1) =
          (s.port.store.eventsOf agentRunId).take count ++ [event] := by
        rw [List.take_add_one, hplace, Option.toList_some]
      refine ⟨h.stored, before, hlog, hlt, count + 1, hltLog, ?_, by omega, ?_⟩
      · rw [htake, ← hread, List.append_nil, List.append_nil]
      · intro id
        rw [htake, List.map_append, List.mem_append, ← hseen, List.mem_cons]
        simp [or_comm]

theorem Spliced.restart (h : Spliced agentRunId s) : Spliced agentRunId s.restarted := by
  have hstored : Stored s.restarted.port.store :=
    h.stored.congr rfl (fun row hrow => ⟨row, hrow, rfl⟩)
      fun row hrow => .inl ⟨row, hrow, rfl, rfl, rfl, rfl⟩
  refine ⟨hstored, s.port.store.eventsOf agentRunId, ?_, rfl⟩
  simp only [restarted, pending, Option.toList_none, List.filter_nil, List.append_nil]
  rfl

/-- The history that is read reaches at least as far as the place in the channel. -/
theorem Spliced.readHistory (h : Spliced agentRunId s) {next : ℕ}
    (hreader : s.reader = .subscribed next) :
    Spliced agentRunId { s with
      reader := .streaming (inOrder (s.port.store.eventsOf agentRunId)) next
        ((inOrder (s.port.store.eventsOf agentRunId)).map (·.eventId)) } := by
  obtain ⟨before, hlog, hreads⟩ := h.log
  unfold Reads at hreads
  rw [hreader] at hreads
  obtain ⟨houtput, hnext⟩ := hreads
  refine ⟨h.stored, before, hlog, hnext, (s.port.store.eventsOf agentRunId).length, le_rfl, ?_,
    ?_, ?_⟩
  · rw [inOrder_eventsOf h.stored, houtput, List.take_length, List.nil_append]
  · rw [hlog]
    simp only [List.length_append]
    omega
  · intro id
    rw [inOrder_eventsOf h.stored, List.take_length]

theorem Spliced.replay (h : Spliced agentRunId s) {event : AgentEventEnvelope}
    {rest : List AgentEventEnvelope} {next : ℕ} {seen : List ℕ}
    (hreader : s.reader = .streaming (event :: rest) next seen) :
    Spliced agentRunId { s with
      reader := .streaming rest next seen
      output := s.output ++ [event] } := by
  obtain ⟨before, hlog, hreads⟩ := h.log
  unfold Reads at hreads
  rw [hreader] at hreads
  obtain ⟨hnext, count, hcount, hread, hchannel, hseen⟩ := hreads
  refine ⟨h.stored, before, hlog, hnext, count, hcount, ?_, hchannel, hseen⟩
  rw [← hread, List.append_assoc, List.singleton_append]

/-- Every action of a subscriber that keeps up keeps what it reads in step with the log. -/
theorem Spliced.step (h : Spliced agentRunId s) {action : SubscriptionAction}
    (hkeeps : s.KeepsUp action) (hstep : s.step agentRunId action = some s') :
    Spliced agentRunId s' := by
  unfold SubscriptionState.step at hstep
  cases action with
  | launch request runAttemptId attemptNumber now =>
    apply h.write hstep trivial
    intro store hstore
    have hok := except_toOption_eq_some hstore
    unfold AgentRuntimeStore.persistBeforeLaunch at hok
    split_ifs at hok
    obtain rfl := Except.ok.inj hok
    rfl
  | retry request runAttemptId attemptNumber now =>
    apply h.write hstep trivial
    intro store hstore
    obtain ⟨-, -, -, rfl⟩ := persistRetry_ok (except_toOption_eq_some hstore)
    rfl
  | degrade agentRunId =>
    apply h.write hstep trivial
    intro store hstore
    obtain ⟨state, -, rfl⟩ := markProjectionDegraded_ok (except_toOption_eq_some hstore)
    rfl
  | degradeNext call now =>
    apply h.write hstep hkeeps
    intro store hstore
    rcases degradeNext_cases hstore with ⟨state, -, rfl⟩ | ⟨agentRunId, -, rfl⟩
    · rfl
    · rfl
  | link link =>
    simp only at hstep
    split_ifs at hstep
    obtain rfl := Option.some.inj hstep
    exact ⟨h.stored, h.log⟩
  | append request attempt body =>
    simp only at hstep
    split_ifs at hstep with hunsent
    cases happend : s.port.appendEvent request attempt body with
    | error error =>
      rw [happend] at hstep
      cases hstep
    | ok appended =>
      obtain ⟨unsent, port⟩ := appended
      rw [happend] at hstep
      obtain rfl := Option.some.inj hstep
      exact h.append (by simpa using hunsent) happend
  | send =>
    simp only at hstep
    split_ifs at hstep
    obtain rfl := Option.some.inj hstep
    exact h.send
  | restart =>
    obtain rfl := Option.some.inj hstep
    exact h.restart
  | subscribe =>
    obtain ⟨before, hlog, hreads⟩ := h.log
    simp only at hstep
    split at hstep
    · rename_i hreader _
      obtain rfl := Option.some.inj hstep
      unfold Reads at hreads
      rw [hreader] at hreads
      exact ⟨h.stored, before, hlog, hreads, le_rfl⟩
    · cases hstep
  | readHistory =>
    cases hreader : s.reader with
    | none =>
      rw [hreader] at hstep
      cases hstep
    | streaming history next seen =>
      rw [hreader] at hstep
      cases hstep
    | subscribed next =>
      rw [hreader] at hstep
      obtain rfl := Option.some.inj hstep
      exact h.readHistory hreader
  | next =>
    cases hreader : s.reader with
    | none =>
      rw [hreader] at hstep
      cases hstep
    | subscribed next =>
      rw [hreader] at hstep
      cases hstep
    | streaming history next seen =>
      cases history with
      | nil =>
        rw [hreader] at hstep
        exact h.receive hreader (hkeeps next seen hreader) hstep
      | cons event rest =>
        rw [hreader] at hstep
        obtain rfl := Option.some.inj hstep
        exact h.replay hreader

theorem Spliced.delivers (h : Spliced agentRunId s) : s.Delivers agentRunId := by
  obtain ⟨before, hlog, hreads⟩ := h.log
  have hids : ((s.port.store.eventsOf agentRunId).map (·.eventId)).Nodup :=
    h.stored.ids.sublist (List.filter_sublist.map _)
  have hbegins : s.output <+: s.port.store.eventsOf agentRunId := by
    unfold Reads at hreads
    cases hreader : s.reader with
    | none =>
      rw [hreader] at hreads
      rw [hreads]
      exact List.nil_prefix
    | subscribed next =>
      rw [hreader] at hreads
      rw [hreads.1]
      exact List.nil_prefix
    | streaming history next seen =>
      rw [hreader] at hreads
      obtain ⟨-, count, -, hread, -, -⟩ := hreads
      exact (List.prefix_append _ history).trans (hread ▸ List.take_prefix count _)
  unfold Delivers
  rw [inOrder_eventsOf h.stored]
  refine ⟨hbegins, hids.sublist (hbegins.sublist.map _), ?_⟩
  intro hstreams hunsent hwaits
  unfold streams at hstreams
  unfold Reads at hreads
  unfold SubscriptionState.step at hwaits
  cases hreader : s.reader with
  | none =>
    rw [hreader] at hstreams
    cases hstreams
  | subscribed next =>
    rw [hreader] at hstreams
    cases hstreams
  | streaming history next seen =>
    rw [hreader] at hreads hwaits
    obtain ⟨hnext, count, hcount, hread, hchannel, -⟩ := hreads
    cases history with
    | cons event rest => cases hwaits
    | nil =>
      simp only [SubscriptionState.receive] at hwaits
      split_ifs at hwaits
      cases hevent : s.sent[next]? with
      | some event =>
        rw [hevent] at hwaits
        simp only at hwaits
        split_ifs at hwaits
      | none =>
        have hall := List.getElem?_eq_none_iff.mp hevent
        have hlength := congrArg List.length hlog
        rw [pending, hunsent, Option.toList_none, List.filter_nil, List.append_nil,
          List.length_append] at hlength
        rw [← List.append_nil s.output, hread]
        apply List.take_of_length_le
        omega

end Splice

/-- A subscriber that never falls behind by more than the channel holds delivers every stored event
once and in order, in every state reached. -/
theorem subscription_complete {agentRunId : ℕ} {actions : List SubscriptionAction}
    {s : SubscriptionState} (h : Run (step agentRunId) KeepsUp init actions s) :
    s.Delivers agentRunId :=
  (h.invariant (fun _ _ _ hspliced hkeeps hstep => Spliced.step hspliced hkeeps hstep)
    Spliced.init).delivers

section Lag

def talkingRequest : AgentRunRequestEnvelope := ⟨⟨1, 2, 3, 0⟩, 5, ⟨7, .user, "go"⟩⟩

def talkingAttempt : RunAttemptRequest := ⟨11, 1⟩

def thought (n : ℕ) : EventBody := ⟨.thinking "", [], n, n⟩

/-- A subscriber that has read the empty log and then not at all, while `n` events were sent. -/
structure Fed (n : ℕ) (s : SubscriptionState) : Prop where
  spliced : Spliced 2 s
  unsent : s.unsent = none
  reader : s.reader = .streaming [] 0 []
  output : s.output = []
  log : s.port.store.eventsOf 2 = s.sent
  events : s.port.store.events.map (·.eventId) = List.range n
  length : s.sent.length = n
  sequence : s.port.nextSequence 11 = n + 1
  ready : ∃ state, Ready s.port talkingRequest talkingAttempt state

def opening : List SubscriptionAction :=
  [.launch ⟨1, 2, 3, 0⟩ 11 1 0, .subscribe, .readHistory]

theorem inOrder_nil : inOrder [] = [] := List.mergeSort_nil

theorem fed_opening : ∃ s, Run (step 2) KeepsUp init opening s ∧ Fed 0 s := by
  obtain ⟨s, hs⟩ : ∃ s, opening.foldlM (step 2) init = some s := ⟨_, rfl⟩
  have hrun : Run (step 2) KeepsUp init opening s := by
    obtain rfl := Option.some.inj hs
    exact .cons trivial rfl (.cons trivial rfl (.cons trivial rfl (.nil _)))
  refine ⟨s, hrun, ?_⟩
  have hspliced := hrun.invariant
    (fun _ _ _ hspliced hkeeps hstep => Spliced.step hspliced hkeeps hstep) Spliced.init
  obtain rfl := Option.some.inj hs
  refine ⟨hspliced, rfl, ?_, rfl, rfl, rfl, rfl, rfl, RunState.pending ⟨1, 2, 3, 0⟩, ?_⟩
  · exact congrArg (fun history => Reader.streaming history 0 (history.map (·.eventId))) inOrder_nil
  exact ⟨rfl, rfl, rfl, rfl, by decide, .inl (by decide), fun _ _ => rfl⟩

theorem Fed.more {n : ℕ} {s : SubscriptionState} (h : Fed n s) (hroom : n + 1 ≤ maxSequence) :
    ∃ mid s', s.step 2 (.append talkingRequest talkingAttempt (thought n)) = some mid ∧
      mid.step 2 .send = some s' ∧ Fed (n + 1) s' := by
  obtain ⟨state, hready⟩ := h.ready
  have hfresh : (thought n).eventId ∉ s.port.store.events.map (·.eventId) := by
    rw [h.events]
    exact List.not_mem_range_self
  have hnext : s.port.nextSequence talkingAttempt.runAttemptId ≤ maxSequence := by
    rw [show talkingAttempt.runAttemptId = 11 from rfl, h.sequence]
    exact hroom
  have happend := hready.append hfresh hnext
  generalize hport : s.port.appended talkingRequest talkingAttempt (thought n) state = port at happend
  generalize hevent : s.port.envelope talkingRequest talkingAttempt (thought n)
    (s.port.nextSequence talkingAttempt.runAttemptId) = event at happend
  have hrun : event.agentRunId = 2 := by
    rw [← hevent]
    rfl
  have hstored : s.step 2 (.append talkingRequest talkingAttempt (thought n)) =
      some { s with port, unsent := some event } := by
    unfold SubscriptionState.step
    simp only [h.unsent, Option.isSome_none, Bool.false_eq_true, if_false, happend]
  have hsent : ({ s with port, unsent := some event } : SubscriptionState).step 2 .send =
      some { s with port, unsent := none, sent := s.sent ++ [event] } := by
    unfold SubscriptionState.step
    simp [pending, hrun]
  have hmid := @Spliced.step 2 _ _ h.spliced (.append talkingRequest talkingAttempt (thought n))
    trivial hstored
  have hspliced := @Spliced.step 2 _ _ hmid .send trivial hsent
  have hevents : port.store.events = s.port.store.events ++ [event] := by
    rw [← hport, ← hevent]
    rfl
  refine ⟨_, _, hstored, hsent, hspliced, rfl, h.reader, h.output, ?_, ?_, ?_, ?_, ?_⟩
  · have hlog := h.log
    unfold AgentRuntimeStore.eventsOf at hlog ⊢
    simp only
    rw [hevents, List.filter_append, hlog]
    simp [hrun]
  · simp only
    rw [hevents, List.map_append, h.events, List.range_succ, List.map_singleton, ← hevent]
    rfl
  · simp only
    rw [List.length_append, h.length]
    rfl
  · simp only
    rw [← hport]
    have hcount := @nextSequence_appended s.port talkingRequest talkingAttempt state (thought n)
    rw [show talkingAttempt.runAttemptId = 11 from rfl, h.sequence] at hcount
    exact hcount
  · exact ⟨_, hport ▸ hready.next⟩

theorem fed (n : ℕ) (hroom : n ≤ maxSequence) : ∃ actions s,
    Run (step 2) (fun _ _ => True) init actions s ∧ Fed n s := by
  induction n with
  | zero =>
    obtain ⟨s, hrun, hfed⟩ := fed_opening
    exact ⟨opening, s, hrun.weaken fun _ _ _ => trivial, hfed⟩
  | succ n ih =>
    obtain ⟨actions, s, hrun, hfed⟩ := ih (by omega)
    obtain ⟨mid, s', hstored, hsent, hfed'⟩ := hfed.more hroom
    exact ⟨_, s', (hrun.concat trivial hstored).concat trivial hsent, hfed'⟩

/-- Writes of states and slow reads are out of the question. -/
def stepShort (s : SubscriptionState) (action : SubscriptionAction) : Option SubscriptionState :=
  match action with
  | .degradeNext .. => none
  | action => if s.sent.length ≤ channelCapacity then s.step 2 action else none

theorem stepShort_run {before actions : List SubscriptionAction} {s s' : SubscriptionState}
    (h : Run (step 2) KeepsUp init before s) (hsteps : actions.foldlM stepShort s = some s') :
    Run (step 2) KeepsUp init (before ++ actions) s' := by
  induction actions generalizing before s with
  | nil =>
    obtain rfl := Option.some.inj hsteps
    rwa [List.append_nil]
  | cons action rest ih =>
    obtain ⟨mid, hfirst, hrest⟩ := Option.bind_eq_some_iff.mp hsteps
    have hstep : s.KeepsUp action ∧ s.step 2 action = some mid := by
      unfold stepShort at hfirst
      cases action with
      | degradeNext call now => cases hfirst
      | next =>
        simp only at hfirst
        split_ifs at hfirst with hshort
        exact ⟨fun next seen _ => (Nat.sub_le _ _).trans hshort, hfirst⟩
      | _ =>
        simp only at hfirst
        split_ifs at hfirst
        exact ⟨trivial, hfirst⟩
    have hrun := @ih (before ++ [action]) mid (h.concat hstep.1 hstep.2) hrest
    rwa [List.append_assoc, List.singleton_append] at hrun

def talk (n : ℕ) : List SubscriptionAction := [.append talkingRequest talkingAttempt (thought n), .send]

/-- One event before the subscription and one after it, and a call that is to mark the run. -/
def listening : List SubscriptionAction :=
  [.launch ⟨1, 2, 3, 0⟩ 11 1 0] ++ talk 0 ++ [.subscribe] ++ talk 1 ++ [.degrade 2]

/-- The subscriber takes from the log what it has read there, and then from the channel. -/
def taking : List SubscriptionAction := [.next] ++ talk 2 ++ [.next, .next, .next]

def marked : SubscriptionState :=
  ((listening.foldlM stepShort init).bind (step 2 · (.degradeNext 0 0))).getD init

theorem marked_run : Run (step 2) KeepsUp init (listening ++ [.degradeNext 0 0]) marked := by
  obtain ⟨s, hs, hcurrent, hstep⟩ : ∃ s, listening.foldlM stepShort init = some s ∧
      s.port.store.ReadsCurrent 0 ∧ s.step 2 (.degradeNext 0 0) = some marked := by
    refine ⟨_, rfl, ?_, rfl⟩
    intro read hread state hstate _
    obtain rfl := Degrading.read.inj (Option.some.inj hread)
    rw [List.mem_singleton.mp hstate]
  have hrun := @stepShort_run [] listening init s (.nil init) hs
  exact hrun.concat hcurrent hstep

/-- The subscriber reads two events from the log, passes over one that it has read, and gets the third
from the channel. -/
theorem subscription_complete_listening : ∃ actions s, Run (step 2) KeepsUp init actions s ∧
    s.output.map (·.eventId) = [0, 1, 2] ∧ s.step 2 .next = none ∧ s.Delivers 2 := by
  have hstored : Stored marked.port.store := (marked_run.invariant
    (fun _ _ _ hspliced hkeeps hstep => Spliced.step hspliced hkeeps hstep) Spliced.init).stored
  have hread : marked.step 2 .readHistory = some { marked with
      reader := .streaming (marked.port.store.eventsOf 2) 1
        ((marked.port.store.eventsOf 2).map (·.eventId)) } := by
    unfold SubscriptionState.step
    rw [inOrder_eventsOf hstored]
    rfl
  have hopened := Run.concat marked_run (show marked.KeepsUp .readHistory from trivial) hread
  obtain ⟨s, hs, houtput, hwaits⟩ : ∃ s, taking.foldlM stepShort
      { marked with
        reader := .streaming (marked.port.store.eventsOf 2) 1
          ((marked.port.store.eventsOf 2).map (·.eventId)) } = some s ∧
      s.output.map (·.eventId) = [0, 1, 2] ∧ s.step 2 .next = none := ⟨_, rfl, rfl, rfl⟩
  have hrun := stepShort_run hopened hs
  exact ⟨_, s, hrun, houtput, hwaits, subscription_complete hrun⟩

/-- A subscriber that lags behind by one event more than the channel holds never gets that event. -/
theorem lagged_event_lost : ¬ ∀ agentRunId actions s,
    Run (step agentRunId) (fun _ _ => True) init actions s → s.Delivers agentRunId := by
  intro h
  obtain ⟨actions, s, hrun, hfed⟩ := fed (channelCapacity + 1) (by decide)
  obtain ⟨first, second, rest, hsent⟩ : ∃ first second rest, s.sent = first :: second :: rest := by
    have hlength := hfed.length
    match hshape : s.sent with
    | [] => simp [hshape] at hlength
    | [_] => simp [hshape, channelCapacity] at hlength
    | first :: second :: rest => exact ⟨first, second, rest, rfl⟩
  have hlag : s.step 2 .next = some { s with reader := .streaming [] 1 [] } := by
    unfold SubscriptionState.step
    simp only [hfed.reader, SubscriptionState.receive, ahead, hfed.length]
    rfl
  have htake : ({ s with reader := .streaming [] 1 [] } : SubscriptionState).step 2 .next =
      some { s with reader := .streaming [] 2 [second.eventId], output := [second] } := by
    have hsecond : s.sent[1]? = some second := by
      rw [hsent]
      rfl
    unfold SubscriptionState.step
    simp only [SubscriptionState.receive, ahead, hfed.length, hsecond, hfed.output]
    rfl
  have hdelivers := h 2 _ _ ((hrun.concat trivial hlag).concat trivial htake)
  have hbegins := hdelivers.1
  simp only at hbegins
  rw [inOrder_eventsOf hfed.spliced.stored, hfed.log, hsent, List.cons_prefix_cons] at hbegins
  have hids : (s.sent.map (·.eventId)).Nodup := by
    rw [← hfed.log]
    exact hfed.spliced.stored.ids.sublist (List.filter_sublist.map _)
  rw [hsent, hbegins.1, List.map_cons, List.nodup_cons] at hids
  exact hids.1 List.mem_cons_self

end Lag

end SubscriptionState

end VibeKanban.Agent
