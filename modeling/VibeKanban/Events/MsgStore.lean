import Mathlib

/-! The message store: a push is broadcast and then recorded, a reader copies the history and then
subscribes. The steps of any number of pushes and of one reader interleave. -/
namespace VibeKanban.Events

inductive LogMsg (P : Type) where
  | stdout (s : String)
  | stderr (s : String)
  | jsonPatch (patch : P)
  | sessionId (s : String)
  | messageId (s : String)
  | ready
  | finished
  deriving DecidableEq, Repr

/-- `jsonLen` is the length of a patch's JSON text. -/
def LogMsg.approxBytes {P : Type} (jsonLen : P → ℕ) : LogMsg P → ℕ
  | .stdout s => "stdout".utf8ByteSize + s.utf8ByteSize + 8
  | .stderr s => "stderr".utf8ByteSize + s.utf8ByteSize + 8
  | .jsonPatch patch => "json_patch".utf8ByteSize + jsonLen patch + 8
  | .sessionId s => "session_id".utf8ByteSize + s.utf8ByteSize + 8
  | .messageId s => "message_id".utf8ByteSize + s.utf8ByteSize + 8
  | .ready => "ready".utf8ByteSize + 8
  | .finished => "finished".utf8ByteSize + 8

variable {ι P : Type}

/-- A recorded message, with the push it belongs to. -/
structure StoredMsg (ι P : Type) where
  push : ι
  msg : LogMsg P
  bytes : ℕ

structure Inner (ι P : Type) where
  history : List (StoredMsg ι P)
  totalBytes : ℕ

def historyBytes : ℕ := 100000 * 1024

def usizeMax : ℕ := 2 ^ 64 - 1

def usizeSaturatingAdd (a b : ℕ) : ℕ := min (a + b) usizeMax

/-- The oldest messages leave until the new one fits. -/
def evict (bytes : ℕ) : List (StoredMsg ι P) → ℕ → Inner ι P
  | [], total => ⟨[], total⟩
  | front :: rest, total =>
    if usizeSaturatingAdd total bytes > historyBytes then evict bytes rest (total - front.bytes)
    else ⟨front :: rest, total⟩

def Inner.record (inner : Inner ι P) (push : ι) (msg : LogMsg P) (bytes : ℕ) : Inner ι P :=
  let kept := evict bytes inner.history inner.totalBytes
  ⟨kept.history ++ [⟨push, msg, bytes⟩], usizeSaturatingAdd kept.totalBytes bytes⟩

/-- A reader has not started, has the history, or reads the rest of it and then the channel from a
position on. -/
inductive Reader (ι P : Type) where
  | idle
  | copied (history : List (ι × LogMsg P))
  | streaming (pending : List (ι × LogMsg P)) (next : ℕ)

/-- The store, all that was ever broadcast, the pushes that are not recorded yet, and the reader
with what it received. -/
structure StoreState (ι P : Type) where
  inner : Inner ι P
  sent : List (ι × LogMsg P)
  unrecorded : List (ι × LogMsg P)
  reader : Reader ι P
  received : List (ι × LogMsg P)

def StoreState.new : StoreState ι P := ⟨⟨[], 0⟩, [], [], .idle, []⟩

inductive StoreEvent (ι P : Type) where
  | send (push : ι) (msg : LogMsg P)
  | record (push : ι)
  | copy
  | subscribe
  | read

def sentIn (events : List (StoreEvent ι P)) : List ι :=
  events.filterMap fun
    | .send push _ => some push
    | _ => none

def recordedIn (events : List (StoreEvent ι P)) : List ι :=
  events.filterMap fun
    | .record push => some push
    | _ => none

theorem sentIn_append (before later : List (StoreEvent ι P)) : sentIn (before ++ later) = sentIn before ++ sentIn later :=
  List.filterMap_append

theorem recordedIn_append (before later : List (StoreEvent ι P)) :
    recordedIn (before ++ later) = recordedIn before ++ recordedIn later :=
  List.filterMap_append

def StoreState.getHistory (s : StoreState ι P) : List (ι × LogMsg P) :=
  s.inner.history.map fun stored => (stored.push, stored.msg)

/-- All that the channel and the history copy hold for the reader has been read. -/
def StoreState.Drained (s : StoreState ι P) : Prop := s.reader = .streaming [] s.sent.length

/-- The reader has received messages in push order, and all of them once it is drained. -/
def StoreState.GapFree (s : StoreState ι P) : Prop :=
  s.received <+: s.sent ∧ (s.Drained → s.received = s.sent)

variable {s : StoreState ι P} {event : StoreEvent ι P} {events : List (StoreEvent ι P)}

/-- What the store holds, told from the steps taken. -/
structure Tracked (events : List (StoreEvent ι P)) (s : StoreState ι P) : Prop where
  sent : s.sent.map Prod.fst = sentIn events
  nodup : (s.sent.map Prod.fst).Nodup
  unrecorded : ∀ entry ∈ s.unrecorded, entry ∈ s.sent
  history : ∀ entry ∈ s.getHistory, entry ∈ s.sent
  recorded : s.getHistory.map Prod.fst = recordedIn events

/-- The steps of the reader leave the store alone. -/
theorem Tracked.reader (h : Tracked events s) {reader : Reader ι P} {received : List (ι × LogMsg P)}
    (hsent : sentIn [event] = []) (hrecorded : recordedIn [event] = []) :
    Tracked (events ++ [event]) { s with reader := reader, received := received } where
  sent := by rw [sentIn_append, hsent, List.append_nil]; exact h.sent
  nodup := h.nodup
  unrecorded := h.unrecorded
  history := h.history
  recorded := by rw [recordedIn_append, hrecorded, List.append_nil]; exact h.recorded

theorem Tracked.send (h : Tracked events s) {push : ι} {msg : LogMsg P}
    (hfresh : push ∉ s.sent.map Prod.fst) :
    Tracked (events ++ [.send push msg]) { s with
      sent := s.sent ++ [(push, msg)]
      unrecorded := s.unrecorded ++ [(push, msg)] } where
  sent := by
    rw [sentIn_append, ← h.sent, List.map_append]
    rfl
  nodup := by
    rw [List.map_append, List.map_singleton, List.nodup_append]
    refine ⟨h.nodup, List.nodup_singleton _, fun a ha b hb heq => ?_⟩
    rw [List.mem_singleton.mp hb] at heq
    rw [heq] at ha
    exact hfresh ha
  unrecorded := by
    refine List.forall_mem_append.mpr ⟨fun entry hentry => ?_, fun entry hentry => ?_⟩
    · exact List.mem_append_left _ (h.unrecorded entry hentry)
    · exact List.mem_append_right _ hentry
  history entry hentry := List.mem_append_left _ (h.history entry hentry)
  recorded := by
    rw [recordedIn_append, ← h.recorded]
    exact (List.append_nil _).symm

/-- From the subscription on, what was received and what is still to come are the copied history
and the messages broadcast since. -/
structure Streams (copied : List (ι × LogMsg P)) (since : ℕ) (s : StoreState ι P) : Prop where
  reader : ∃ pending next, s.reader = .streaming pending next ∧ next ≤ s.sent.length ∧
    s.received ++ (pending ++ s.sent.drop next) = copied ++ s.sent.drop since
  since : since ≤ s.sent.length

/-- A copy of everything broadcast before the subscription leaves no gap. -/
theorem Streams.gapFree {since : ℕ} (h : Streams (s.sent.take since) since s) : s.GapFree := by
  obtain ⟨pending, next, hreader, _, htotal⟩ := h.reader
  rw [List.take_append_drop] at htotal
  refine ⟨⟨_, htotal⟩, fun hdrained => ?_⟩
  rw [StoreState.Drained, hreader] at hdrained
  obtain ⟨rfl, rfl⟩ := Reader.streaming.inj hdrained
  simpa using htotal

variable [DecidableEq ι] (jsonLen : P → ℕ) (capacity : ℕ)

/-- One atomic step, when it can be taken. A reader that has lagged behind skips to the oldest
message the channel holds. -/
def StoreState.step (s : StoreState ι P) : StoreEvent ι P → Option (StoreState ι P)
  | .send push msg =>
    if push ∈ s.sent.map Prod.fst then none
    else some { s with
      sent := s.sent ++ [(push, msg)]
      unrecorded := s.unrecorded ++ [(push, msg)] }
  | .record push => do
    let entry ← s.unrecorded.find? fun entry => entry.1 = push
    return { s with
      inner := s.inner.record push entry.2 (entry.2.approxBytes jsonLen)
      unrecorded := s.unrecorded.filter fun entry => entry.1 ≠ push }
  | .copy =>
    match s.reader with
    | .idle => some { s with reader := .copied s.getHistory }
    | _ => none
  | .subscribe =>
    match s.reader with
    | .copied history => some { s with reader := .streaming history s.sent.length }
    | _ => none
  | .read =>
    match s.reader with
    | .streaming (msg :: pending) next =>
      some { s with reader := .streaming pending next, received := s.received ++ [msg] }
    | .streaming [] next =>
      if next + capacity < s.sent.length then
        some { s with reader := .streaming [] (s.sent.length - capacity) }
      else do
        let msg ← s.sent[next]?
        return { s with reader := .streaming [] (next + 1), received := s.received ++ [msg] }
    | _ => none

def StoreState.run (s : StoreState ι P) : List (StoreEvent ι P) → Option (StoreState ι P)
  | [] => some s
  | event :: rest => do
    let s ← s.step jsonLen capacity event
    s.run rest

/-- No message leaves the history, and the reader does not fall behind the channel. -/
def StoreState.Quiet (s : StoreState ι P) : List (StoreEvent ι P) → Prop
  | [] => True
  | event :: rest =>
    (match event with
      | .record push => ∀ entry ∈ s.unrecorded, entry.1 = push →
          evict (entry.2.approxBytes jsonLen) s.inner.history s.inner.totalBytes = s.inner
      | .read => ∀ next, s.reader = .streaming [] next → s.sent.length ≤ next + capacity
      | _ => True) ∧
    ∀ s', s.step jsonLen capacity event = some s' → s'.Quiet rest

variable {jsonLen : P → ℕ} {capacity : ℕ} {s' : StoreState ι P} {before later : List (StoreEvent ι P)}

theorem run_append : s.run jsonLen capacity (before ++ later) =
    (s.run jsonLen capacity before).bind fun s => s.run jsonLen capacity later := by
  induction before generalizing s with
  | nil => rfl
  | cons event rest ih =>
    simp only [List.cons_append, StoreState.run, Option.bind_eq_bind, ih, Option.bind_assoc]

theorem quiet_append (h : s.Quiet jsonLen capacity (before ++ later))
    (hrun : s.run jsonLen capacity before = some s') :
    s.Quiet jsonLen capacity before ∧ s'.Quiet jsonLen capacity later := by
  induction before generalizing s with
  | nil =>
    obtain rfl := Option.some.inj hrun
    exact ⟨trivial, h⟩
  | cons event rest ih =>
    obtain ⟨mid, hmid, hrest⟩ := Option.bind_eq_some_iff.mp hrun
    refine ⟨⟨h.1, fun s₁ hs₁ => ?_⟩, (ih (h.2 mid hmid) hrest).2⟩
    rw [hmid] at hs₁
    obtain rfl := Option.some.inj hs₁
    exact (ih (h.2 mid hmid) hrest).1

theorem Tracked.record (h : Tracked events s) {push : ι} {entry : ι × LogMsg P}
    (hentry : entry ∈ s.unrecorded) (hpush : entry.1 = push)
    (hevict : evict (entry.2.approxBytes jsonLen) s.inner.history s.inner.totalBytes = s.inner) :
    Tracked (events ++ [.record push]) { s with
      inner := s.inner.record push entry.2 (entry.2.approxBytes jsonLen)
      unrecorded := s.unrecorded.filter fun entry => entry.1 ≠ push } := by
  have hhistory : (s.inner.record push entry.2 (entry.2.approxBytes jsonLen)).history =
      s.inner.history ++ [⟨push, entry.2, entry.2.approxBytes jsonLen⟩] := by
    simp only [Inner.record, hevict]
  refine ⟨?_, h.nodup, fun e he => h.unrecorded e (List.mem_of_mem_filter he), ?_, ?_⟩
  · rw [sentIn_append, ← h.sent]
    exact (List.append_nil _).symm
  · simp only [StoreState.getHistory, hhistory, List.map_append, List.map_singleton]
    refine List.forall_mem_append.mpr ⟨h.history, fun e he => ?_⟩
    rw [List.mem_singleton.mp he, ← hpush]
    exact h.unrecorded entry hentry
  · rw [recordedIn_append, ← h.recorded]
    simp only [StoreState.getHistory, hhistory, List.map_append, List.map_singleton]
    rfl

theorem Tracked.step (h : Tracked events s) (hstep : s.step jsonLen capacity event = some s')
    {rest : List (StoreEvent ι P)} (hquiet : s.Quiet jsonLen capacity (event :: rest)) :
    Tracked (events ++ [event]) s' := by
  cases event with
  | send push msg =>
    simp only [StoreState.step] at hstep
    split_ifs at hstep with hfresh
    obtain rfl := Option.some.inj hstep
    exact h.send hfresh
  | record push =>
    obtain ⟨entry, hfind, hs'⟩ := Option.bind_eq_some_iff.mp hstep
    obtain rfl := Option.some.inj hs'
    have hentry := List.mem_of_find?_eq_some hfind
    have hpush : entry.1 = push := by simpa using List.find?_some hfind
    exact h.record hentry hpush (hquiet.1 entry hentry hpush)
  | copy =>
    simp only [StoreState.step] at hstep
    split at hstep
    · obtain rfl := Option.some.inj hstep
      exact h.reader rfl rfl
    · cases hstep
  | subscribe =>
    simp only [StoreState.step] at hstep
    split at hstep
    · obtain rfl := Option.some.inj hstep
      exact h.reader rfl rfl
    · cases hstep
  | read =>
    simp only [StoreState.step] at hstep
    split at hstep
    · obtain rfl := Option.some.inj hstep
      exact h.reader rfl rfl
    · split_ifs at hstep
      · obtain rfl := Option.some.inj hstep
        exact h.reader rfl rfl
      · obtain ⟨msg, _, hs'⟩ := Option.bind_eq_some_iff.mp hstep
        obtain rfl := Option.some.inj hs'
        exact h.reader rfl rfl
    · cases hstep

theorem Tracked.run (h : Tracked events s) (hrun : s.run jsonLen capacity later = some s')
    (hquiet : s.Quiet jsonLen capacity later) : Tracked (events ++ later) s' := by
  induction later generalizing s events with
  | nil =>
    obtain rfl := Option.some.inj hrun
    rwa [List.append_nil]
  | cons event rest ih =>
    obtain ⟨mid, hmid, hrest⟩ := Option.bind_eq_some_iff.mp hrun
    have hnext := ih (h.step hmid hquiet) hrest (hquiet.2 mid hmid)
    rwa [List.append_assoc] at hnext

theorem Streams.step {copied : List (ι × LogMsg P)} {since : ℕ} (h : Streams copied since s)
    (hstep : s.step jsonLen capacity event = some s') {rest : List (StoreEvent ι P)}
    (hquiet : s.Quiet jsonLen capacity (event :: rest)) :
    Streams copied since s' ∧ s.sent <+: s'.sent := by
  obtain ⟨pending, next, hreader, hnext, htotal⟩ := h.reader
  cases event with
  | send push msg =>
    simp only [StoreState.step] at hstep
    split_ifs at hstep
    obtain rfl := Option.some.inj hstep
    refine ⟨⟨⟨pending, next, hreader, ?_, ?_⟩, ?_⟩, List.prefix_append _ _⟩
    · simp only [List.length_append]
      omega
    · rw [List.drop_append_of_le_length hnext, List.drop_append_of_le_length h.since]
      simp only [← List.append_assoc] at htotal ⊢
      rw [htotal]
    · have hsince := h.since
      simp only [List.length_append]
      omega
  | record push =>
    obtain ⟨entry, _, hs'⟩ := Option.bind_eq_some_iff.mp hstep
    obtain rfl := Option.some.inj hs'
    exact ⟨⟨⟨pending, next, hreader, hnext, htotal⟩, h.since⟩, List.prefix_refl _⟩
  | copy =>
    simp only [StoreState.step, hreader] at hstep
    cases hstep
  | subscribe =>
    simp only [StoreState.step, hreader] at hstep
    cases hstep
  | read =>
    cases pending with
    | cons msg pending =>
      simp only [StoreState.step, hreader] at hstep
      obtain rfl := Option.some.inj hstep
      refine ⟨⟨⟨pending, next, rfl, hnext, ?_⟩, h.since⟩, List.prefix_refl _⟩
      simpa using htotal
    | nil =>
      have hroom : ¬ next + capacity < s.sent.length := Nat.not_lt.mpr (hquiet.1 next hreader)
      simp only [StoreState.step, hreader, if_neg hroom] at hstep
      obtain ⟨msg, hmsg, hs'⟩ := Option.bind_eq_some_iff.mp hstep
      obtain rfl := Option.some.inj hs'
      obtain ⟨hlt, hget⟩ := List.getElem?_eq_some_iff.mp hmsg
      refine ⟨⟨⟨[], next + 1, rfl, hlt, ?_⟩, h.since⟩, List.prefix_refl _⟩
      rw [List.drop_eq_getElem_cons hlt, hget] at htotal
      simpa using htotal

theorem Streams.run {copied : List (ι × LogMsg P)} {since : ℕ} (h : Streams copied since s)
    (hrun : s.run jsonLen capacity later = some s') (hquiet : s.Quiet jsonLen capacity later) :
    Streams copied since s' ∧ s.sent <+: s'.sent := by
  induction later generalizing s with
  | nil =>
    obtain rfl := Option.some.inj hrun
    exact ⟨h, List.prefix_refl _⟩
  | cons event rest ih =>
    obtain ⟨mid, hmid, hrest⟩ := Option.bind_eq_some_iff.mp hrun
    obtain ⟨hstreams, hgrown⟩ := h.step hmid hquiet
    obtain ⟨hend, hgrown'⟩ := ih hstreams hrest (hquiet.2 mid hmid)
    exact ⟨hend, hgrown.trans hgrown'⟩

/-- The reader goes through its copy of the history. -/
theorem read_pending (jsonLen : P → ℕ) (capacity : ℕ) {pending : List (ι × LogMsg P)} {next : ℕ}
    (hreader : s.reader = .streaming pending next) :
    s.Quiet jsonLen capacity (List.replicate pending.length .read) ∧
      s.run jsonLen capacity (List.replicate pending.length .read) =
        some { s with reader := .streaming [] next, received := s.received ++ pending } := by
  induction pending generalizing s with
  | nil =>
    refine ⟨trivial, ?_⟩
    obtain ⟨inner, sent, unrecorded, reader, received⟩ := s
    dsimp only at hreader
    subst hreader
    simp [StoreState.run]
  | cons msg pending ih =>
    have hstep : s.step jsonLen capacity .read =
        some { s with reader := .streaming pending next, received := s.received ++ [msg] } := by
      simp only [StoreState.step, hreader]
    obtain ⟨hquiet, hrun⟩ := ih (s := { s with
      reader := .streaming pending next, received := s.received ++ [msg] }) rfl
    rw [List.length_cons, List.replicate_succ]
    refine ⟨⟨fun next' hnext' => ?_, fun s₁ hs₁ => ?_⟩, ?_⟩
    · rw [hreader] at hnext'
      cases hnext'
    · rw [hstep] at hs₁
      obtain rfl := Option.some.inj hs₁
      exact hquiet
    · rw [StoreState.run, hstep]
      simp only [Option.bind_eq_bind, Option.bind_some, hrun]
      simp

/-- Before the subscription a reader receives nothing and keeps its copy. -/
theorem step_not_streaming (hstep : s.step jsonLen capacity event = some s')
    (hnot : ∀ pending next, s'.reader ≠ .streaming pending next) :
    (∀ pending next, s.reader ≠ .streaming pending next) ∧ s'.received = s.received ∧
      s.sent <+: s'.sent ∧ ∀ history, s.reader = .copied history → s'.reader = .copied history := by
  cases event with
  | send push msg =>
    simp only [StoreState.step] at hstep
    split_ifs at hstep
    obtain rfl := Option.some.inj hstep
    exact ⟨hnot, rfl, List.prefix_append _ _, fun _ h => h⟩
  | record push =>
    obtain ⟨entry, _, hs'⟩ := Option.bind_eq_some_iff.mp hstep
    obtain rfl := Option.some.inj hs'
    exact ⟨hnot, rfl, List.prefix_refl _, fun _ h => h⟩
  | copy =>
    simp only [StoreState.step] at hstep
    split at hstep
    · rename_i hidle
      obtain rfl := Option.some.inj hstep
      refine ⟨fun pending next h => ?_, rfl, List.prefix_refl _, fun history h => ?_⟩
      · rw [hidle] at h
        cases h
      · rw [hidle] at h
        cases h
    · cases hstep
  | subscribe =>
    simp only [StoreState.step] at hstep
    split at hstep
    · obtain rfl := Option.some.inj hstep
      exact absurd rfl (hnot _ _)
    · cases hstep
  | read =>
    simp only [StoreState.step] at hstep
    split at hstep
    · obtain rfl := Option.some.inj hstep
      exact absurd rfl (hnot _ _)
    · split_ifs at hstep
      · obtain rfl := Option.some.inj hstep
        exact absurd rfl (hnot _ _)
      · obtain ⟨_, _, hs'⟩ := Option.bind_eq_some_iff.mp hstep
        obtain rfl := Option.some.inj hs'
        exact absurd rfl (hnot _ _)
    · cases hstep

theorem run_not_streaming (hrun : s.run jsonLen capacity later = some s')
    (hnot : ∀ pending next, s'.reader ≠ .streaming pending next) :
    (∀ pending next, s.reader ≠ .streaming pending next) ∧ s'.received = s.received ∧
      s.sent <+: s'.sent ∧ ∀ history, s.reader = .copied history → s'.reader = .copied history := by
  induction later generalizing s with
  | nil =>
    obtain rfl := Option.some.inj hrun
    exact ⟨hnot, rfl, List.prefix_refl _, fun _ h => h⟩
  | cons event rest ih =>
    obtain ⟨mid, hmid, hrest⟩ := Option.bind_eq_some_iff.mp hrun
    obtain ⟨hmidnot, hreceived, hsent, hcopy⟩ := ih hrest
    obtain ⟨hfirst, hreceived', hsent', hcopy'⟩ := step_not_streaming hmid hmidnot
    exact ⟨hfirst, hreceived.trans hreceived', hsent'.trans hsent,
      fun history h => hcopy history (hcopy' history h)⟩

/-- What opening a stream does: the history of one moment, the channel from another moment on. -/
theorem opened_spec {between : List (StoreEvent ι P)} {opened : StoreState ι P}
    (hopen : StoreState.new.run jsonLen capacity (before ++ .copy :: (between ++ [.subscribe])) =
      some opened)
    (hquiet : StoreState.new.Quiet jsonLen capacity
      (before ++ .copy :: (between ++ [.subscribe]))) :
    ∃ copied, opened.reader = .streaming copied opened.sent.length ∧ opened.received = [] ∧
      copied.map Prod.fst = recordedIn before ∧ (∀ entry ∈ copied, entry ∈ opened.sent) ∧
      opened.sent.map Prod.fst = sentIn (before ++ between) ∧ (opened.sent.map Prod.fst).Nodup := by
  have hnew : Tracked [] (StoreState.new : StoreState ι P) :=
    ⟨rfl, List.nodup_nil, by simp [StoreState.new], by simp [StoreState.new, StoreState.getHistory],
      rfl⟩
  have hall := hnew.run hopen hquiet
  rw [run_append] at hopen
  obtain ⟨s₁, hs₁, hopen⟩ := Option.bind_eq_some_iff.mp hopen
  have hbefore := hnew.run hs₁ (quiet_append hquiet hs₁).1
  rw [List.nil_append] at hbefore hall
  obtain ⟨s₂, hs₂, hopen⟩ := Option.bind_eq_some_iff.mp hopen
  rw [run_append] at hopen
  obtain ⟨s₃, hs₃, hopen⟩ := Option.bind_eq_some_iff.mp hopen
  obtain ⟨s₄, hs₄, hopen⟩ := Option.bind_eq_some_iff.mp hopen
  obtain rfl := Option.some.inj hopen
  simp only [StoreState.step] at hs₂ hs₄
  split at hs₂
  swap
  · cases hs₂
  rename_i hidle
  obtain rfl := Option.some.inj hs₂
  split at hs₄
  swap
  · cases hs₄
  rename_i history hcopied
  obtain rfl := Option.some.inj hs₄
  obtain ⟨_, hreceived, hsent, hkept⟩ := run_not_streaming hs₃ (by
    intro pending next h
    rw [hcopied] at h
    cases h)
  obtain ⟨_, hreceived', _, _⟩ := run_not_streaming hs₁ (by
    intro pending next h
    rw [hidle] at h
    cases h)
  have hhistory : history = s₁.getHistory := by
    have hsame := hkept _ rfl
    rw [hcopied] at hsame
    exact Reader.copied.inj hsame
  refine ⟨s₁.getHistory, by rw [hhistory], hreceived.trans hreceived', hbefore.recorded,
    fun entry hentry => hsent.subset (hbefore.history entry hentry), ?_, hall.nodup⟩
  rw [hall.sent]
  simp [sentIn]

/-- A stream is free of gaps, however the reading and the pushes after its opening interleave,
exactly when the pushes recorded before the copy are, in order, those broadcast before the
subscription. -/
theorem msg_store_gap_free (jsonLen : P → ℕ) (capacity : ℕ) (before between : List (StoreEvent ι P))
    (opened : StoreState ι P)
    (hopen : StoreState.new.run jsonLen capacity (before ++ .copy :: (between ++ [.subscribe])) =
      some opened)
    (hquiet : StoreState.new.Quiet jsonLen capacity
      (before ++ .copy :: (between ++ [.subscribe]))) :
    (∀ later s, opened.run jsonLen capacity later = some s →
        opened.Quiet jsonLen capacity later → s.GapFree) ↔
      recordedIn before = sentIn (before ++ between) := by
  obtain ⟨copied, hreader, hreceived, hcopied, hsub, hsent, hnodup⟩ := opened_spec hopen hquiet
  rw [← hcopied, ← hsent]
  constructor
  · intro h
    obtain ⟨hread, hrun⟩ := read_pending jsonLen capacity hreader
    have hall := (h _ _ hrun hread).2 rfl
    rw [hreceived, List.nil_append] at hall
    dsimp only at hall
    rw [hall]
  · intro hids later s hrun hlater
    have hall : copied = opened.sent := by
      refine List.ext_getElem (by simpa using congrArg List.length hids) fun i hi hi' => ?_
      refine List.inj_on_of_nodup_map hnodup (hsub _ (List.getElem_mem hi)) (List.getElem_mem hi') ?_
      have hget := congrArg (fun l => l[i]?) hids
      simpa [hi, hi'] using hget
    have hstreams : Streams copied opened.sent.length opened :=
      ⟨⟨copied, opened.sent.length, hreader, Nat.le_refl _, by rw [hreceived]; rfl⟩,
        Nat.le_refl _⟩
    obtain ⟨hend, hgrown⟩ := hstreams.run hrun hlater
    have htake : copied = s.sent.take opened.sent.length :=
      hall.trans (List.prefix_iff_eq_take.mp hgrown)
    rw [htake] at hend
    exact hend.gapFree

section Runs

/-- A line of output. -/
def line : LogMsg Unit := .stdout "ok"

/-- A push is broadcast, a reader opens its stream, and the push is recorded: the reader has nothing
left to read and has not received the message. -/
theorem msg_store_gap :
    ∃ opened, StoreState.new.run (fun _ => 2) 131072
        [.send 0 line, .copy, .subscribe] = some opened ∧
      StoreState.new.Quiet (fun _ => 2) 131072 [.send 0 line, .copy, .subscribe] ∧
      ∃ s, opened.run (fun _ => 2) 131072 [.record 0] = some s ∧
        opened.Quiet (fun _ => 2) 131072 [.record 0] ∧ s.Drained ∧ s.received = [] ∧
        s.sent = [(0, line)] ∧ ¬ s.GapFree := by
  refine ⟨_, rfl, ⟨trivial, fun _ _ => ⟨trivial, fun _ _ => ⟨trivial, fun _ _ => trivial⟩⟩⟩, _, rfl,
    ⟨fun _ _ _ => rfl, fun _ _ => trivial⟩, rfl, rfl, rfl, fun h => ?_⟩
  exact absurd (h.2 rfl) (by decide)

/-- One push is over when the reader opens its stream, another one comes later. -/
theorem msg_store_gap_free_late :
    ∃ opened s, StoreState.new.run (fun _ => 2) 131072
        [.send 0 line, .record 0, .copy, .subscribe] = some opened ∧
      opened.run (fun _ => 2) 131072 [.send 1 line, .read, .read] = some s ∧ s.GapFree ∧
      s.received = [(0, line), (1, line)] := by
  have hquiet : StoreState.new.Quiet (fun _ => 2) 131072
      ([.send 0 line, .record 0] ++ .copy :: ([] ++ [.subscribe])) := by
    refine ⟨trivial, fun s₁ hs₁ => ⟨fun entry _ _ => ?_, fun s₂ _ => ⟨trivial, fun s₃ _ =>
      ⟨trivial, fun _ _ => trivial⟩⟩⟩⟩
    obtain rfl := Option.some.inj hs₁
    rfl
  have hopen : StoreState.new.run (fun _ => 2) 131072
      [.send 0 line, .record 0, .copy, .subscribe] =
        some ⟨⟨[⟨0, line, 16⟩], 16⟩, [(0, line)], [], .streaming [(0, line)] 1, []⟩ := rfl
  have hlater : StoreState.run (fun _ => 2) 131072
      ⟨⟨[⟨0, line, 16⟩], 16⟩, [(0, line)], [], .streaming [(0, line)] 1, []⟩
      [.send 1 line, .read, .read] =
        some ⟨⟨[⟨0, line, 16⟩], 16⟩, [(0, line), (1, line)], [(1, line)], .streaming [] 2,
          [(0, line), (1, line)]⟩ := by
    simp [StoreState.run, StoreState.step]
  refine ⟨_, _, hopen, hlater, ?_, rfl⟩
  refine (msg_store_gap_free (fun _ => 2) 131072 [.send 0 line, .record 0] [] _ hopen hquiet).mpr rfl
    [.send 1 line, .read, .read] _ hlater ?_
  refine ⟨trivial, fun s₁ hs₁ => ⟨fun next hnext => ?_, fun s₂ hs₂ => ⟨fun next hnext => ?_,
    fun _ _ => trivial⟩⟩⟩
  · obtain rfl := Option.some.inj hs₁
    cases hnext
  · obtain rfl := Option.some.inj hs₁
    obtain rfl := Option.some.inj hs₂
    obtain ⟨_, rfl⟩ := Reader.streaming.inj hnext
    decide

end Runs

end VibeKanban.Events
