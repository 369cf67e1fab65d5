import Mathlib.Data.List.Range
import VibeKanban.Lib.Lines

/-! The journal of a process host: appends that may fail half way, reading pages after a cursor, and
the recovery of a dead host's journal from the lines of its file. -/
namespace VibeKanban.Host
open Lib

/-- The byte that ends a record. -/
def newline : UInt8 := 10

def hostStreamPageSize : ℕ := 128

/-- The transport frame budget of a page. -/
def pageBudget : ℕ := 4 * 1024 * 1024

structure HostEvent (π : Type) where
  sequence : ℕ
  eventId : String
  timestamp : String
  payload : π
  deriving DecidableEq, Repr

/-- The JSON form of an event. -/
structure EventCodec (π : Type) where
  toVec : HostEvent π → List UInt8
  fromSlice : List UInt8 → Except String (HostEvent π)

variable {π : Type}

/-- An event is written without line breaks and read back, the line break after it ignored. -/
def EventCodec.Reads (codec : EventCodec π) (event : HostEvent π) : Prop :=
  newline ∉ codec.toVec event ∧ codec.fromSlice (codec.toVec event ++ [newline]) = .ok event

def EventCodec.record (codec : EventCodec π) (event : HostEvent π) : List UInt8 :=
  codec.toVec event ++ [newline]

theorem EventCodec.record_pos (codec : EventCodec π) (event : HostEvent π) :
    0 < (codec.record event).length := by
  unfold EventCodec.record
  rw [List.length_append, List.length_singleton]
  omega

/-- `stop` is the end of what was committed. -/
structure HostJournal where
  file : List UInt8
  offsets : List ℕ
  stop : ℕ
  deriving DecidableEq, Repr

namespace HostJournal

def create : HostJournal := ⟨[], [], 0⟩

def lastSequence (journal : HostJournal) : ℕ := journal.offsets.length

/-- Append a record; `some written` is a failure after that many bytes. -/
def append (codec : EventCodec π) (journal : HostJournal) (event : HostEvent π) :
    Option ℕ → HostJournal
  | none => ⟨writeAt journal.file journal.stop (codec.record event), journal.offsets ++ [journal.stop],
      journal.stop + (codec.record event).length⟩
  | some written =>
    { journal with file := writeAt journal.file journal.stop ((codec.record event).take written) }

def recordSize (journal : HostJournal) (index : ℕ) : ℕ :=
  (journal.offsets[index + 1]?).getD journal.stop - journal.offsets.getD index 0

def readRecord (codec : EventCodec π) (journal : HostJournal) (index : ℕ) :
    Except String (HostEvent π) :=
  let size := journal.recordSize index
  let bytes := (journal.file.drop (journal.offsets.getD index 0)).take size
  if bytes.length < size then .error "early eof" else codec.fromSlice bytes

/-- Read records; a page with a limit ends before the record that exceeds the budget. -/
def readRecords (codec : EventCodec π) (journal : HostJournal) (limit : Option ℕ) (pageBytes : ℕ)
    (first : Bool) : List ℕ → Except String (List (HostEvent π))
  | [] => .ok []
  | index :: rest =>
    if limit.isSome && !first && decide (pageBudget < pageBytes + journal.recordSize index) then
      .ok []
    else do
      let event ← journal.readRecord codec index
      let more ← journal.readRecords codec limit (pageBytes + journal.recordSize index) false rest
      return event :: more

/-- The events after a cursor; no limit is `none`. -/
def readAfter (codec : EventCodec π) (journal : HostJournal) (sequence : ℕ) (limit : Option ℕ) :
    Except String (List (HostEvent π)) :=
  let first := min sequence journal.offsets.length
  let last := limit.elim journal.offsets.length fun limit =>
    min (first + limit) journal.offsets.length
  journal.readRecords codec limit 0 true (List.range' first (last - first))

/-- One page and the cursor behind it. -/
def pageAfter (codec : EventCodec π) (journal : HostJournal) (limit : ℕ) (cursor : ℕ) :
    Except String (List (HostEvent π) × ℕ) := do
  let events ← journal.readAfter codec cursor (some limit)
  return (events, (events.getLast?.map (·.sequence)).getD cursor)

end HostJournal

/-- The unread bytes, the sequence read last and the cursor of a recovery. -/
structure HostJournalReplay where
  unread : List UInt8
  sequence : ℕ
  afterSequence : ℕ
  deriving DecidableEq, Repr

namespace HostJournalReplay

def openFile (file : List UInt8) (afterSequence : ℕ) : HostJournalReplay := ⟨file, 0, afterSequence⟩

/-- The loop of a page; every round reads a line. -/
def nextPageLoop (codec : EventCodec π) : ℕ → HostJournalReplay → ℕ → ℕ →
    Except String (List (HostEvent π) × HostJournalReplay)
  | 0, replay, _, _ => .ok ([], replay)
  | fuel + 1, replay, count, pageBytes =>
    if count < hostStreamPageSize ∧ pageBytes < pageBudget then
      let line := readUntil newline replay.unread
      if line.1.getLast? ≠ some newline then .ok ([], { replay with unread := line.2 })
      else do
        let event ← codec.fromSlice line.1
        let replay := { replay with unread := line.2, sequence := replay.sequence + 1 }
        if event.sequence ≠ replay.sequence then .error "host journal sequence gap"
        else if replay.afterSequence < event.sequence then do
          let (more, replay) ← nextPageLoop codec fuel replay (count + 1) (pageBytes + line.1.length)
          return (event :: more, replay)
        else nextPageLoop codec fuel replay count pageBytes
    else .ok ([], replay)

def nextPage (codec : EventCodec π) (replay : HostJournalReplay) :
    Except String (List (HostEvent π) × HostJournalReplay) :=
  nextPageLoop codec (replay.unread.length + 1) replay 0 0

/-- The events of some lines that follow the cursor; the lines are numbered without a gap. -/
def decodeLines (codec : EventCodec π) (cursor : ℕ) :
    ℕ → List (List UInt8) → Except String (List (HostEvent π))
  | _, [] => .ok []
  | sequence, line :: rest => do
    let event ← codec.fromSlice line
    if event.sequence ≠ sequence + 1 then .error "host journal sequence gap"
    else do
      let more ← decodeLines codec cursor (sequence + 1) rest
      return if cursor < event.sequence then event :: more else more

variable {codec : EventCodec π} {cursor : ℕ}

/-- A page takes its events from the front of what is left to decode. -/
structure Turns (codec : EventCodec π) (before : HostJournalReplay) (page : List (HostEvent π))
    (after : HostJournalReplay) : Prop where
  cursor : after.afterSequence = before.afterSequence
  shorter : after.unread.length ≤ before.unread.length
  events : decodeLines codec before.afterSequence before.sequence
      (completeLines newline before.unread) =
    (decodeLines codec before.afterSequence after.sequence
      (completeLines newline after.unread)).map (page ++ ·)
  progress : page ≠ [] → after.unread.length < before.unread.length

theorem map_nil_append (r : Except String (List (HostEvent π))) : r.map ([] ++ ·) = r := by
  cases r <;> rfl

/-- A line that is read and numbered right. -/
theorem decodeLines_cons {line : List UInt8} {rest : List (List UInt8)} {sequence : ℕ}
    {event : HostEvent π} (hevent : codec.fromSlice line = .ok event)
    (hseq : event.sequence = sequence + 1) : decodeLines codec cursor sequence (line :: rest) =
      (decodeLines codec cursor (sequence + 1) rest).map fun more =>
        if cursor < event.sequence then event :: more else more := by
  rw [decodeLines, hevent]
  change (if event.sequence ≠ sequence + 1 then _ else _) = _
  rw [if_neg (not_not.mpr hseq)]
  cases decodeLines codec cursor (sequence + 1) rest <;> rfl

theorem nextPageLoop_line {fuel count pageBytes : ℕ} {replay : HostJournalReplay}
    {line rest : List UInt8} {event : HostEvent π}
    (hroom : count < hostStreamPageSize ∧ pageBytes < pageBudget) (hline : newline ∉ line)
    (hbytes : replay.unread = line ++ newline :: rest)
    (hevent : codec.fromSlice (line ++ [newline]) = .ok event)
    (hseq : event.sequence = replay.sequence + 1) :
    nextPageLoop codec (fuel + 1) replay count pageBytes =
      if replay.afterSequence < event.sequence then
        (nextPageLoop codec fuel ⟨rest, replay.sequence + 1, replay.afterSequence⟩ (count + 1)
          (pageBytes + (line ++ [newline]).length)).map fun page => (event :: page.1, page.2)
      else nextPageLoop codec fuel ⟨rest, replay.sequence + 1, replay.afterSequence⟩ count
        pageBytes := by
  rw [nextPageLoop, if_pos hroom, hbytes, readUntil_line hline]
  have hlast : (line ++ [newline]).getLast? = some newline := by simp
  simp only [hlast, ne_eq, not_true_eq_false, if_false, hevent]
  change (if ¬event.sequence = replay.sequence + 1 then _ else _) = _
  rw [if_neg (not_not.mpr hseq)]
  split_ifs
  · cases nextPageLoop codec fuel ⟨rest, replay.sequence + 1, replay.afterSequence⟩ (count + 1)
      (pageBytes + (line ++ [newline]).length) <;> rfl
  · rfl

/-- A loop of pages either fails where decoding fails, or turns a page; an empty page is the last
one. -/
theorem nextPageLoop_spec (fuel : ℕ) (replay : HostJournalReplay) (count pageBytes : ℕ)
    (hfuel : replay.unread.length < fuel) :
    (∃ e, nextPageLoop codec fuel replay count pageBytes = .error e ∧
      decodeLines codec replay.afterSequence replay.sequence
        (completeLines newline replay.unread) = .error e) ∨
    ∃ page after, nextPageLoop codec fuel replay count pageBytes = .ok (page, after) ∧
      Turns codec replay page after ∧ (page = [] → count < hostStreamPageSize →
        pageBytes < pageBudget → completeLines newline after.unread = []) := by
  induction fuel generalizing replay count pageBytes with
  | zero => omega
  | succ fuel ih =>
    by_cases hroom : count < hostStreamPageSize ∧ pageBytes < pageBudget
    · rcases exists_line newline replay.unread with hline | ⟨line, rest, hline, hbytes⟩
      · -- the unread bytes hold no complete line
        rw [nextPageLoop, if_pos hroom, readUntil_unfinished hline]
        have hlast : replay.unread.getLast? ≠ some newline :=
          fun h => hline (List.mem_of_getLast? h)
        refine Or.inr ⟨[], { replay with unread := [] }, if_pos hlast, ?_, fun _ _ _ => rfl⟩
        refine ⟨rfl, Nat.zero_le _, ?_, fun h => absurd rfl h⟩
        rw [completeLines_unfinished hline]
        rfl
      · have hlines : completeLines newline replay.unread =
            (line ++ [newline]) :: completeLines newline rest := by
          rw [hbytes, completeLines_line hline]
        have hlength : rest.length < replay.unread.length := by
          rw [hbytes, List.length_append, List.length_cons]
          omega
        have hrest : rest.length < fuel := by omega
        cases hevent : codec.fromSlice (line ++ [newline]) with
        | error e =>
          refine Or.inl ⟨e, ?_, ?_⟩
          · rw [nextPageLoop, if_pos hroom, hbytes, readUntil_line hline]
            have hlast : (line ++ [newline]).getLast? = some newline := by simp
            simp only [hlast, ne_eq, not_true_eq_false, if_false, hevent]
            rfl
          · rw [hlines, decodeLines, hevent]
            rfl
        | ok event =>
          by_cases hseq : event.sequence = replay.sequence + 1
          · rw [nextPageLoop_line hroom hline hbytes hevent hseq, hlines,
              decodeLines_cons hevent hseq]
            by_cases hafter : replay.afterSequence < event.sequence
            · simp only [if_pos hafter]
              rcases ih ⟨rest, replay.sequence + 1, replay.afterSequence⟩ (count + 1)
                (pageBytes + (line ++ [newline]).length) hrest with
                ⟨e, hloop, hdecode⟩ | ⟨page, after, hloop, hturns, _⟩
              · exact Or.inl ⟨e, by rw [hloop]; rfl, by rw [hdecode]; rfl⟩
              · refine Or.inr ⟨event :: page, after, by rw [hloop]; rfl, ⟨hturns.cursor, ?_, ?_, ?_⟩,
                  fun h => by cases h⟩
                · have hshorter := hturns.shorter
                  simp only at hshorter
                  omega
                · rw [hlines, decodeLines_cons hevent hseq, hturns.events]
                  simp only [if_pos hafter]
                  cases decodeLines codec replay.afterSequence after.sequence
                    (completeLines newline after.unread) <;> rfl
                · intro _
                  have hshorter := hturns.shorter
                  simp only at hshorter
                  omega
            · simp only [if_neg hafter]
              rcases ih ⟨rest, replay.sequence + 1, replay.afterSequence⟩ count pageBytes hrest with
                ⟨e, hloop, hdecode⟩ | ⟨page, after, hloop, hturns, hempty⟩
              · exact Or.inl ⟨e, hloop, by rw [hdecode]; rfl⟩
              · refine Or.inr ⟨page, after, hloop, ⟨hturns.cursor, ?_, ?_, ?_⟩, hempty⟩
                · have hshorter := hturns.shorter
                  simp only at hshorter
                  omega
                · rw [hlines, decodeLines_cons hevent hseq, hturns.events]
                  simp only [if_neg hafter]
                  cases decodeLines codec replay.afterSequence after.sequence
                    (completeLines newline after.unread) <;> rfl
                · intro hpage
                  have hprogress := hturns.progress hpage
                  simp only at hprogress
                  omega
          · refine Or.inl ⟨"host journal sequence gap", ?_, ?_⟩
            · rw [nextPageLoop, if_pos hroom, hbytes, readUntil_line hline]
              have hlast : (line ++ [newline]).getLast? = some newline := by simp
              simp only [hlast, ne_eq, not_true_eq_false, if_false, hevent]
              exact if_pos hseq
            · rw [hlines, decodeLines, hevent]
              exact if_pos hseq
    · rw [nextPageLoop, if_neg hroom]
      refine Or.inr ⟨[], replay, rfl, ⟨rfl, le_rfl, (map_nil_append _).symm, fun h => absurd rfl h⟩, ?_⟩
      exact fun _ hcount hbytes => absurd ⟨hcount, hbytes⟩ hroom

/-- Recovery page by page gives what the complete lines of the file decode to. -/
theorem paged_nextPage (replay : HostJournalReplay) : Paged (nextPage codec) replay
    (decodeLines codec replay.afterSequence replay.sequence
      (completeLines newline replay.unread)) := by
  induction hn : replay.unread.length using Nat.strong_induction_on generalizing replay with
  | _ n ih =>
    rcases @nextPageLoop_spec π codec (replay.unread.length + 1) replay 0 0 (Nat.lt_succ_self _) with ⟨e, hloop, hdecode⟩ | ⟨page, after, hloop, hturns, hempty⟩
    · rw [hdecode]
      exact .fail hloop
    · rw [hturns.events]
      by_cases hpage : page = []
      · subst hpage
        rw [hempty rfl (by decide) (by decide)]
        exact .done hloop
      · refine .more hloop hpage ?_
        have hrest := ih after.unread.length (hn ▸ hturns.progress hpage) after rfl
        rwa [hturns.cursor] at hrest

end HostJournalReplay

/-- What an append of the host writes; `failedAfter` are the bytes written before a failure. -/
structure Attempt (π : Type) where
  eventId : String
  timestamp : String
  payload : π
  failedAfter : Option ℕ
  deriving DecidableEq, Repr

def Attempt.event (attempt : Attempt π) (sequence : ℕ) : HostEvent π :=
  ⟨sequence, attempt.eventId, attempt.timestamp, attempt.payload⟩

/-- The events of the appends that succeeded, after those already there. -/
def accepted : List (HostEvent π) → List (Attempt π) → List (HostEvent π)
  | events, [] => events
  | events, attempt :: rest =>
    if attempt.failedAfter = none then
      accepted (events ++ [attempt.event (events.length + 1)]) rest
    else accepted events rest

/-- Which bytes of a record are line breaks: the last one only. -/
def breaks (size : ℕ) : List Bool := List.replicate (size - 1) false ++ [true]

/-- The line breaks that failed appends left behind the committed end, byte by byte. An append
covers the front of what was left. -/
def leftoverNext (leftover : List Bool) (size : ℕ) : Option ℕ → List Bool
  | none => leftover.drop size
  | some written => (breaks size).take written ++ leftover.drop (min written size)

/-- A record that was written completely leaves its line break. -/
theorem mem_leftoverNext {size : ℕ} (h : 0 < size) (leftover : List Bool) :
    true ∈ leftoverNext leftover size (some size) := by
  simp only [leftoverNext, breaks]
  rw [List.take_of_length_le (by simp; omega)]
  simp

/-- A record that is written again covers its first, incomplete try. -/
theorem leftoverNext_retried {size : ℕ} (h : 0 < size) (written : ℕ) :
    leftoverNext (leftoverNext [] size (some written)) size none = [] := by
  simp only [leftoverNext, breaks, List.drop_nil, List.append_nil]
  refine List.drop_eq_nil_of_le ?_
  rw [List.length_take, List.length_append, List.length_replicate, List.length_singleton]
  omega

section
variable (codec : EventCodec π)

def HostJournal.appendEvent (journal : HostJournal) (attempt : Attempt π) : HostJournal :=
  journal.append codec (attempt.event (journal.lastSequence + 1)) attempt.failedAfter

/-- The leftover after some appends, from the sizes of their records alone. -/
def leftoverAfter : ℕ → List Bool → List (Attempt π) → List Bool
  | _, leftover, [] => leftover
  | count, leftover, attempt :: rest =>
    leftoverAfter (if attempt.failedAfter = none then count + 1 else count)
      (leftoverNext leftover (codec.record (attempt.event (count + 1))).length attempt.failedAfter)
      rest

/-- The events that the appends try to write. -/
def attempted : ℕ → List (Attempt π) → List (HostEvent π)
  | _, [] => []
  | count, attempt :: rest => attempt.event (count + 1) ::
      attempted (if attempt.failedAfter = none then count + 1 else count) rest

def records (events : List (HostEvent π)) : List UInt8 := events.flatMap codec.record

/-- A journal that holds some events and a leftover. -/
structure HostJournal.Holds (journal : HostJournal) (events : List (HostEvent π))
    (leftover : List Bool) : Prop where
  file : ∃ bytes : List UInt8, journal.file = records codec events ++ bytes ∧
    bytes.map (· == newline) = leftover
  offsets : journal.offsets = (List.range events.length).map fun i =>
    (records codec (events.take i)).length
  stop : journal.stop = (records codec events).length
  numbered : ∀ i event, events[i]? = some event → event.sequence = i + 1
  reads : ∀ event ∈ events, codec.Reads event

end

namespace HostJournal
variable {codec : EventCodec π} {journal : HostJournal} {events : List (HostEvent π)}
  {leftover : List Bool}

theorem holds_create : create.Holds codec [] [] := by
  refine ⟨⟨[], rfl, rfl⟩, rfl, rfl, ?_, ?_⟩
  · intro i event h
    simp at h
  · intro event h
    cases h

theorem record_breaks {event : HostEvent π} (h : codec.Reads event) :
    (codec.record event).map (· == newline) = breaks (codec.record event).length := by
  unfold EventCodec.record breaks
  rw [List.map_append, List.length_append, List.length_singleton, Nat.add_sub_cancel]
  congr 1
  rw [List.eq_replicate_iff]
  refine ⟨by simp, fun b hb => ?_⟩
  obtain ⟨byte, hbyte, rfl⟩ := List.mem_map.mp hb
  have hne : byte ≠ newline := fun heq => h.1 (heq ▸ hbyte)
  simpa using hne

theorem Holds.lastSequence (h : journal.Holds codec events leftover) :
    journal.lastSequence = events.length := by
  unfold HostJournal.lastSequence
  rw [h.offsets, List.length_map, List.length_range]

theorem Holds.append_none (h : journal.Holds codec events leftover) {event : HostEvent π}
    (hreads : codec.Reads event) (hseq : event.sequence = events.length + 1) :
    (journal.append codec event none).Holds codec (events ++ [event])
      (leftoverNext leftover (codec.record event).length none) := by
  obtain ⟨bytes, hfile, hbreaks⟩ := h.file
  have hrecords : records codec (events ++ [event]) = records codec events ++ codec.record event := by
    simp [records]
  refine ⟨⟨bytes.drop (codec.record event).length, ?_, ?_⟩, ?_, ?_, ?_, ?_⟩
  · simp only [append]
    rw [hfile, h.stop, writeAt_append, hrecords, List.append_assoc]
  · rw [List.map_drop, hbreaks]
    rfl
  · simp only [append]
    rw [h.offsets, h.stop, List.length_append, List.length_singleton, List.range_succ,
      List.map_append, List.map_singleton, List.take_append_of_le_length le_rfl, List.take_length]
    congr 1
    refine List.map_congr_left fun i hi => ?_
    rw [List.take_append_of_le_length (List.mem_range.mp hi).le]
  · simp only [append]
    rw [h.stop, hrecords, List.length_append]
  · intro i x hx
    rcases lt_or_ge i events.length with hi | hi
    · rw [List.getElem?_append_left hi] at hx
      exact h.numbered i x hx
    · rw [List.getElem?_append_right hi] at hx
      obtain ⟨hlt, hget⟩ := List.getElem?_eq_some_iff.mp hx
      rw [List.length_singleton] at hlt
      have hzero : i = events.length := by omega
      subst hzero
      simp only [Nat.sub_self, List.getElem_cons_zero] at hget
      rw [← hget, hseq]
  · intro x hx
    rcases List.mem_append.mp hx with hx | hx
    · exact h.reads x hx
    · exact List.mem_singleton.mp hx ▸ hreads

theorem Holds.append_some (h : journal.Holds codec events leftover) {event : HostEvent π}
    (hreads : codec.Reads event) (written : ℕ) :
    (journal.append codec event (some written)).Holds codec events
      (leftoverNext leftover (codec.record event).length (some written)) := by
  obtain ⟨bytes, hfile, hbreaks⟩ := h.file
  refine ⟨⟨(codec.record event).take written ++
    bytes.drop ((codec.record event).take written).length, ?_, ?_⟩, h.offsets, h.stop, h.numbered,
    h.reads⟩
  · simp only [append]
    rw [hfile, h.stop, writeAt_append]
  · rw [List.map_append, List.map_take, record_breaks hreads, List.map_drop, hbreaks,
      List.length_take]
    rfl

/-- The journal after some appends. -/
theorem Holds.run (h : journal.Holds codec events leftover) {attempts : List (Attempt π)}
    (hreads : ∀ event ∈ attempted events.length attempts, codec.Reads event) :
    (attempts.foldl (appendEvent codec) journal).Holds codec (accepted events attempts)
      (leftoverAfter codec events.length leftover attempts) := by
  induction attempts generalizing journal events leftover with
  | nil => exact h
  | cons attempt rest ih =>
    rw [List.foldl_cons]
    have hevent := hreads _ List.mem_cons_self
    have hmore : ∀ event ∈ attempted (if attempt.failedAfter = none then events.length + 1 else
        events.length) rest, codec.Reads event :=
      fun event hmem => hreads event (List.mem_cons_of_mem _ hmem)
    rw [accepted, leftoverAfter, appendEvent, h.lastSequence]
    cases hfailed : attempt.failedAfter with
    | none =>
      simp only [hfailed, if_true] at hmore ⊢
      have hnext := h.append_none hevent rfl
      have hlength : (events ++ [attempt.event (events.length + 1)]).length = events.length + 1 := by
        simp
      have hrun := ih hnext (by rwa [hlength])
      rwa [hlength] at hrun
    | some written =>
      simp only [hfailed, reduceCtorEq, if_false] at hmore ⊢
      exact ih (h.append_some hevent written) hmore

theorem records_take {events : List (HostEvent π)} {i : ℕ} {event : HostEvent π}
    (h : events[i]? = some event) : records codec (events.take (i + 1)) =
      records codec (events.take i) ++ codec.record event := by
  rw [List.take_add_one, h]
  simp [records]

theorem records_split {events : List (HostEvent π)} {i : ℕ} {event : HostEvent π}
    (h : events[i]? = some event) : records codec events =
      records codec (events.take i) ++ (codec.record event ++ records codec (events.drop (i + 1))) := by
  have hsplit : records codec events = records codec (events.take (i + 1)) ++
      records codec (events.drop (i + 1)) := by
    unfold records
    rw [← List.flatMap_append, List.take_append_drop]
  rw [hsplit, records_take h, List.append_assoc]

theorem Holds.recordSize (h : journal.Holds codec events leftover) {i : ℕ} {event : HostEvent π}
    (hi : events[i]? = some event) : journal.offsets.getD i 0 =
      (records codec (events.take i)).length ∧ journal.recordSize i = (codec.record event).length := by
  obtain ⟨hlt, -⟩ := List.getElem?_eq_some_iff.mp hi
  have hoffset : journal.offsets.getD i 0 = (records codec (events.take i)).length := by
    rw [h.offsets, List.getD_eq_getElem?_getD, List.getElem?_map, List.getElem?_range hlt]
    rfl
  refine ⟨hoffset, ?_⟩
  have hnext : (journal.offsets[i + 1]?).getD journal.stop =
      (records codec (events.take (i + 1))).length := by
    rcases lt_or_ge (i + 1) events.length with hmore | hlast
    · rw [h.offsets, List.getElem?_map, List.getElem?_range hmore]
      rfl
    · rw [h.offsets, List.getElem?_eq_none (by simpa using hlast), h.stop, List.take_of_length_le hlast]
      rfl
  unfold HostJournal.recordSize
  rw [hnext, hoffset, records_take hi, List.length_append]
  omega

theorem Holds.readRecord (h : journal.Holds codec events leftover) {i : ℕ} {event : HostEvent π}
    (hi : events[i]? = some event) : journal.readRecord codec i = .ok event := by
  obtain ⟨bytes, hfile, _⟩ := h.file
  obtain ⟨hoffset, hsize⟩ := h.recordSize hi
  have hbytes : (journal.file.drop (records codec (events.take i)).length).take
      (codec.record event).length = codec.record event := by
    rw [hfile, records_split hi, List.append_assoc, List.append_assoc, List.drop_left', List.take_left']
    · rfl
    · rfl
  unfold HostJournal.readRecord
  rw [hoffset, hsize]
  simp only [hbytes, lt_irrefl, if_false]
  exact (h.reads event (List.mem_of_getElem? hi)).2

/-- Some records are read from a position on: all of them without a limit, and at least one. -/
theorem Holds.readRecords (h : journal.Holds codec events leftover) (limit : Option ℕ)
    (first : Bool) (pageBytes i n : ℕ) (hn : i + n ≤ events.length) :
    ∃ k ≤ n, journal.readRecords codec limit pageBytes first (List.range' i n) =
        .ok ((events.drop i).take k) ∧ (limit = none → k = n) ∧ (first = true → 0 < n → 0 < k) := by
  induction n generalizing first pageBytes i with
  | zero => exact ⟨0, le_rfl, rfl, fun _ => rfl, fun _ h => h⟩
  | succ n ih =>
    rw [List.range'_succ, HostJournal.readRecords]
    split_ifs with hfull
    · refine ⟨0, Nat.zero_le _, rfl, ?_, ?_⟩
      · intro hnone
        rw [hnone] at hfull
        simp at hfull
      · intro hfirst
        rw [hfirst] at hfull
        simp at hfull
    · have hlt : i < events.length := by omega
      have hevent : events[i]? = some events[i] := List.getElem?_eq_getElem hlt
      obtain ⟨k, hk, hrest, hall, _⟩ := ih false (pageBytes + journal.recordSize i) (i + 1) (by omega)
      refine ⟨k + 1, by omega, ?_, fun hnone => by rw [hall hnone], fun _ _ => Nat.succ_pos k⟩
      rw [h.readRecord hevent, hrest, List.drop_eq_getElem_cons hlt, List.take_succ_cons]
      rfl

theorem Holds.readAfter_none (h : journal.Holds codec events leftover) (cursor : ℕ) :
    journal.readAfter codec cursor none = .ok (events.drop cursor) := by
  unfold HostJournal.readAfter
  have hlength : journal.offsets.length = events.length := h.lastSequence
  rw [hlength]
  obtain ⟨k, _, hread, hall, _⟩ := h.readRecords none true 0 (min cursor events.length)
    (events.length - min cursor events.length) (by omega)
  simp only [Option.elim_none]
  rw [hread, hall rfl, List.take_of_length_le (by simp)]
  rcases le_total cursor events.length with hle | hle
  · rw [min_eq_left hle]
  · rw [min_eq_right hle, List.drop_length, List.drop_eq_nil_of_le hle]

theorem Holds.readAfter_some (h : journal.Holds codec events leftover) {limit : ℕ}
    (hlimit : 0 < limit) (cursor : ℕ) : ∃ k, journal.readAfter codec cursor (some limit) =
      .ok ((events.drop cursor).take k) ∧ (events.drop cursor ≠ [] → 0 < k) := by
  unfold HostJournal.readAfter
  have hlength : journal.offsets.length = events.length := h.lastSequence
  rw [hlength]
  simp only [Option.elim_some]
  obtain ⟨k, _, hread, _, hsome⟩ := h.readRecords (some limit) true 0 (min cursor events.length)
    (min (min cursor events.length + limit) events.length - min cursor events.length) (by omega)
  rcases le_total cursor events.length with hle | hle
  · rw [min_eq_left hle] at hread hsome ⊢
    refine ⟨k, hread, fun hne => hsome rfl ?_⟩
    have hlt : cursor < events.length := by
      by_contra hge
      exact hne (List.drop_eq_nil_of_le (by omega))
    omega
  · rw [min_eq_right hle] at hread ⊢
    rw [List.drop_length] at hread
    exact ⟨k, by rw [hread, List.drop_eq_nil_of_le hle], fun hne =>
      absurd (List.drop_eq_nil_of_le hle) hne⟩

/-- Pages after a cursor add up to the events after it. -/
theorem Holds.paged (h : journal.Holds codec events leftover) {limit : ℕ} (hlimit : 0 < limit)
    (cursor : ℕ) : Paged (journal.pageAfter codec limit) cursor (.ok (events.drop cursor)) := by
  induction hn : events.length - cursor using Nat.strong_induction_on generalizing cursor with
  | _ n ih =>
    obtain ⟨k, hread, hsome⟩ := h.readAfter_some hlimit cursor
    have hpage : journal.pageAfter codec limit cursor = .ok ((events.drop cursor).take k,
        (((events.drop cursor).take k).getLast?.map (·.sequence)).getD cursor) := by
      unfold HostJournal.pageAfter
      rw [hread]
      rfl
    by_cases hnil : events.drop cursor = []
    · rw [hnil] at hpage ⊢
      rw [List.take_nil] at hpage
      exact .done hpage
    · have hlt : cursor < events.length := by
        by_contra hge
        exact hnil (List.drop_eq_nil_of_le (by omega))
      have hk := hsome hnil
      let count := min k (events.length - cursor)
      have hcount : ((events.drop cursor).take k).length = count := by simp [count]
      have hne : (events.drop cursor).take k ≠ [] := by
        rw [← List.length_pos_iff, hcount]
        omega
      have hlast : (((events.drop cursor).take k).getLast?.map (·.sequence)).getD cursor =
          cursor + count := by
        have hindex : ((events.drop cursor).take k).getLast? = events[cursor + (count - 1)]? := by
          rw [List.getLast?_eq_getElem?, hcount, List.getElem?_take_of_lt (by omega),
            List.getElem?_drop]
        have hget : events[cursor + (count - 1)]? = some events[cursor + (count - 1)] :=
          List.getElem?_eq_getElem (by omega)
        rw [hindex, hget]
        change (events[cursor + (count - 1)]).sequence = cursor + count
        rw [h.numbered _ _ hget]
        omega
      rw [hlast] at hpage
      have hrest := ih (events.length - (cursor + count)) (by omega) (cursor + count) rfl
      have hmore := Paged.more hpage hne hrest
      have hsplit : (events.drop cursor).take k ++ events.drop (cursor + count) =
          events.drop cursor := by
        have hdrop : events.drop (cursor + count) = (events.drop cursor).drop k := by
          rw [List.drop_drop]
          rcases le_total k (events.length - cursor) with hle | hle
          · simp [count, min_eq_left hle]
          · rw [List.drop_eq_nil_of_le (by omega), List.drop_eq_nil_of_le (by omega)]
        rw [hdrop, List.take_append_drop]
      change Paged _ _ (.ok ((events.drop cursor).take k ++ events.drop (cursor + count))) at hmore
      rwa [hsplit] at hmore

/-- The complete lines of the file are the records, and what failed appends completed. -/
theorem completeLines_records (hreads : ∀ event ∈ events, codec.Reads event)
    (bytes : List UInt8) : completeLines newline (records codec events ++ bytes) =
      events.map codec.record ++ completeLines newline bytes := by
  induction events with
  | nil => rfl
  | cons event rest ih =>
    have hcons : records codec (event :: rest) ++ bytes =
        codec.toVec event ++ newline :: (records codec rest ++ bytes) := by
      simp [records, EventCodec.record]
    rw [hcons, completeLines_line (hreads event List.mem_cons_self).1,
      ih fun x hx => hreads x (List.mem_cons_of_mem _ hx)]
    rfl

theorem numbered_tail {event : HostEvent π} {sequence : ℕ} (h : ∀ i x, (event :: events)[i]? = some x →
    x.sequence = sequence + i + 1) : ∀ i x, events[i]? = some x →
      x.sequence = sequence + 1 + i + 1 := by
  intro i x hx
  have hnext := h (i + 1) x hx
  omega

/-- The events that follow the cursor are the last ones. -/
theorem filter_numbered {cursor sequence : ℕ}
    (h : ∀ i x, events[i]? = some x → x.sequence = sequence + i + 1) :
    (events.filter fun event => cursor < event.sequence) = events.drop (cursor - sequence) := by
  induction events generalizing sequence with
  | nil => simp
  | cons event rest ih =>
    have hseq : event.sequence = sequence + 1 := h 0 event rfl
    rw [List.filter_cons, ih (numbered_tail h), hseq]
    rcases Nat.lt_or_ge sequence cursor with hlt | hge
    · have hnot : ¬ cursor < sequence + 1 := by omega
      have hsub : cursor - sequence = cursor - (sequence + 1) + 1 := by omega
      rw [hsub, List.drop_succ_cons]
      simp [hnot]
    · have hsub : cursor - sequence = 0 := by omega
      have hsub' : cursor - (sequence + 1) = 0 := by omega
      have hyes : cursor < sequence + 1 := by omega
      simp [hsub, hsub', hyes]

/-- The records of numbered events decode to those that follow the cursor. -/
theorem decodeLines_records {cursor sequence : ℕ}
    (hreads : ∀ event ∈ events, codec.Reads event)
    (hnumbered : ∀ i event, events[i]? = some event → event.sequence = sequence + i + 1) :
    HostJournalReplay.decodeLines codec cursor sequence (events.map codec.record) =
      .ok (events.filter fun event => cursor < event.sequence) := by
  induction events generalizing sequence with
  | nil => rfl
  | cons event rest ih =>
    have hseq : event.sequence = sequence + 1 := hnumbered 0 event rfl
    have hread : codec.fromSlice (codec.record event) = .ok event :=
      (hreads event List.mem_cons_self).2
    have hrest := ih (fun x hx => hreads x (List.mem_cons_of_mem _ hx)) (numbered_tail hnumbered)
    rw [List.map_cons, HostJournalReplay.decodeLines_cons hread hseq, hrest, List.filter_cons]
    by_cases hafter : cursor < event.sequence
    · simp [hafter, Except.map]
    · simp [hafter, Except.map]

/-- Everything that decodes from the start counts its lines. -/
theorem decodeLines_length {sequence : ℕ} {lines : List (List UInt8)}
    (h : HostJournalReplay.decodeLines codec 0 sequence lines = .ok events) :
    events.length = lines.length := by
  induction lines generalizing sequence events with
  | nil =>
    obtain rfl := Except.ok.inj h
    rfl
  | cons line rest ih =>
    cases hevent : codec.fromSlice line with
    | error e =>
      rw [HostJournalReplay.decodeLines, hevent] at h
      cases h
    | ok event =>
      by_cases hseq : event.sequence = sequence + 1
      · rw [HostJournalReplay.decodeLines_cons hevent hseq] at h
        cases hmore : HostJournalReplay.decodeLines codec 0 (sequence + 1) rest with
        | error e =>
          rw [hmore] at h
          cases h
        | ok more =>
          rw [hmore] at h
          have hpos : 0 < event.sequence := by omega
          simp only [hpos, if_true] at h
          obtain rfl := Except.ok.inj h
          rw [List.length_cons, List.length_cons, ih hmore]
      · rw [HostJournalReplay.decodeLines, hevent] at h
        change (if event.sequence ≠ sequence + 1 then _ else _) = _ at h
        rw [if_pos hseq] at h
        cases h

theorem Holds.replayed (h : journal.Holds codec events leftover) (cursor : ℕ) :
    ∃ bytes : List UInt8, bytes.map (· == newline) = leftover ∧
      Paged (HostJournalReplay.nextPage codec) (.openFile journal.file cursor)
        (HostJournalReplay.decodeLines codec cursor 0
          (events.map codec.record ++ completeLines newline bytes)) := by
  obtain ⟨bytes, hfile, hbreaks⟩ := h.file
  refine ⟨bytes, hbreaks, ?_⟩
  have hpaged := @HostJournalReplay.paged_nextPage π codec (.openFile journal.file cursor)
  simp only [HostJournalReplay.openFile] at hpaged ⊢
  rw [hfile, completeLines_records h.reads] at hpaged
  rwa [hfile]

/-- A line break behind the committed end is recovered as one more event. -/
theorem Holds.length_lt (h : journal.Holds codec events leftover) (hbreak : true ∈ leftover)
    {recovered : List (HostEvent π)}
    (hpaged : Paged (HostJournalReplay.nextPage codec) (.openFile journal.file 0) (.ok recovered)) :
    events.length < recovered.length := by
  obtain ⟨bytes, hbytes, hreplayed⟩ := h.replayed 0
  have hlength := decodeLines_length (hreplayed.unique hpaged)
  have hline : completeLines newline bytes ≠ [] := by
    rw [← hbytes] at hbreak
    obtain ⟨byte, hbyte, hnewline⟩ := List.mem_map.mp hbreak
    have hmem : newline ∈ bytes := by
      have heq : byte = newline := by simpa using hnewline
      exact heq ▸ hbyte
    rcases exists_line newline bytes with hnone | ⟨line, rest, hline, rfl⟩
    · exact absurd hmem hnone
    · rw [completeLines_line hline]
      exact List.cons_ne_nil _ _
  have hpos := List.length_pos_iff.mpr hline
  rw [List.length_append, List.length_map] at hlength
  omega

theorem Holds.filter_eq_drop (h : journal.Holds codec events leftover) (cursor : ℕ) :
    (events.filter fun event => cursor < event.sequence) = events.drop cursor := by
  have hdrop := @filter_numbered π events cursor 0 fun i event hi => by
    rw [h.numbered i event hi, Nat.zero_add]
  rwa [Nat.sub_zero] at hdrop

end HostJournal

/-- For every sequence of appends, recovery and paging give the appended events behind every cursor
exactly when no failed append left its line break behind the committed end. -/
theorem replay_iff_covered (codec : EventCodec π) (attempts : List (Attempt π))
    (hreads : ∀ event ∈ attempted 0 attempts, codec.Reads event) :
    (∀ cursor,
      Paged (HostJournalReplay.nextPage codec)
        (.openFile (attempts.foldl (HostJournal.appendEvent codec) .create).file cursor)
        (.ok ((accepted [] attempts).filter fun event => cursor < event.sequence)) ∧
      (attempts.foldl (HostJournal.appendEvent codec) .create).readAfter codec cursor none =
        .ok ((accepted [] attempts).filter fun event => cursor < event.sequence) ∧
      ∀ limit, 0 < limit →
        Paged ((attempts.foldl (HostJournal.appendEvent codec) .create).pageAfter codec limit) cursor
          (.ok ((accepted [] attempts).filter fun event => cursor < event.sequence))) ↔
      true ∉ leftoverAfter codec 0 [] attempts := by
  have h := HostJournal.holds_create.run hreads
  rw [List.length_nil] at h
  constructor
  · intro hall hbreak
    have hlt := h.length_lt hbreak (hall 0).1
    rw [h.filter_eq_drop, List.drop_zero] at hlt
    omega
  · intro hnone cursor
    refine ⟨?_, ?_, fun limit hlimit => ?_⟩
    · obtain ⟨bytes, hbytes, hpaged⟩ := h.replayed cursor
      have hfree : newline ∉ bytes := by
        intro hmem
        rw [← hbytes] at hnone
        exact hnone (List.mem_map.mpr ⟨newline, hmem, by simp⟩)
      rw [completeLines_unfinished hfree, List.append_nil, HostJournal.decodeLines_records h.reads] at hpaged
      · exact hpaged
      · intro i event hi
        rw [h.numbered i event hi, Nat.zero_add]
    · rw [h.filter_eq_drop]
      exact h.readAfter_none cursor
    · rw [h.filter_eq_drop]
      exact h.paged hlimit cursor

section Fixture

/-- The payload of a terminal event. -/
def terminalText : List String := [
  "\x7b\"type\":\"terminal\",", "\"data\":\x7b\"status\":\"succeeded\",", "\"error\":null,",
  "\"error_event_id\":null,", "\"exit_code\":0,",
  "\"audit_manifest\":\x7b\"audit_schema_version\":1,",
  "\"session_id\":\"00000000-0000-0000-0000-000000000000\",",
  "\"agent_run_id\":\"00000000-0000-0000-0000-000000000000\",",
  "\"turn_id\":\"00000000-0000-0000-0000-000000000000\",",
  "\"run_attempt_id\":\"00000000-0000-0000-0000-000000000000\",", "\"run_attempt_number\":1,",
  "\"provider_id\":\"fixture\",", "\"runtime_profile_id\":\"fixture\",",
  "\"workspace_path\":\"\",", "\"runtime_version\":null,", "\"protocol_version\":null,",
  "\"adapter_version\":\"1\",", "\"mapper_version\":\"1\",", "\"frame_count\":0,",
  "\"first_sequence\":null,", "\"last_sequence\":null,", "\"final_checksum\":null,",
  "\"integrity_status\":\"complete\",", "\"created_at\":\"2026-01-01T00:00:00Z\",",
  "\"closed_at\":\"2026-01-01T00:00:00Z\",",
  "\"manifest_relative_path\":\"fixture/manifest.json\",",
  "\"frames_relative_path\":\"fixture/frames.jsonl\",",
  "\"raw_content_trusted\":true\x7d\x7d\x7d"]

def asciiBytes (pieces : List String) : List UInt8 :=
  pieces.flatMap fun text => text.toList.map fun c => UInt8.ofNat c.toNat

def fixtureJson (event : HostEvent (List String)) : List UInt8 :=
  asciiBytes (["\x7b\"sequence\":", toString event.sequence, ",\"event_id\":\"", event.eventId,
    "\",\"timestamp\":\"", event.timestamp, "\",\"payload\":"] ++ event.payload ++ ["\x7d"])

def fixtureAttempt (failedAfter : Option ℕ) : Attempt (List String) :=
  ⟨"00000000-0000-0000-0000-000000000000", "2026-01-01T00:00:00Z", terminalText, failedAfter⟩

/-- The JSON text of events, of which the first one of the examples is read back. -/
def fixtureCodec : EventCodec (List String) where
  toVec := fixtureJson
  fromSlice bytes :=
    if bytes = fixtureJson ((fixtureAttempt none).event 1) ++ [newline] then
      .ok ((fixtureAttempt none).event 1)
    else .error "expected value"

theorem newline_notMem_asciiBytes {pieces : List String}
    (h : (pieces.all fun text => text.toList.all fun c => c.toNat % 256 != 10) = true) :
    newline ∉ asciiBytes pieces := by
  intro hmem
  obtain ⟨text, htext, hbyte⟩ := List.mem_flatMap.mp hmem
  obtain ⟨c, hc, hbreak⟩ := List.mem_map.mp hbyte
  have hne := List.all_eq_true.mp (List.all_eq_true.mp h text htext) c hc
  have heq : c.toNat % 256 = 10 := by
    have hnat := congrArg UInt8.toNat hbreak
    simpa [newline] using hnat
  simp [heq] at hne

theorem fixture_reads : fixtureCodec.Reads ((fixtureAttempt none).event 1) := by
  refine ⟨newline_notMem_asciiBytes (List.all_eq_true.mpr fun text htext => ?_), ?_⟩
  · have hsequence : toString ((fixtureAttempt none).event 1).sequence = "1" := by decide
    rw [hsequence] at htext
    simp only [fixtureAttempt, Attempt.event, terminalText, List.mem_append, List.mem_cons,
      List.not_mem_nil, or_false] at htext
    casesm* _ ∨ _
    all_goals
      subst htext
      rw [String.toList_ofList]
      rfl
  · simp only [fixtureCodec, if_true]

theorem fixture_event (failedAfter : Option ℕ) (sequence : ℕ) :
    (fixtureAttempt failedAfter).event sequence = (fixtureAttempt none).event sequence := rfl

/-- A record that was interrupted after its first bytes and then written again. -/
theorem replay_iff_covered_retried :
    Paged (HostJournalReplay.nextPage fixtureCodec)
      (.openFile (([fixtureAttempt (some 5), fixtureAttempt none].foldl
        (HostJournal.appendEvent fixtureCodec) .create).file) 0)
      (.ok ((accepted [] [fixtureAttempt (some 5), fixtureAttempt none]).filter fun event =>
        0 < event.sequence)) := by
  have hreads : ∀ event ∈ attempted 0 [fixtureAttempt (some 5), fixtureAttempt none],
      fixtureCodec.Reads event := by
    intro event hevent
    rcases List.mem_cons.mp hevent with rfl | hevent
    · rw [fixture_event]
      exact fixture_reads
    · rw [List.mem_singleton.mp hevent]
      exact fixture_reads
  have hcovered : true ∉ leftoverAfter fixtureCodec 0 []
      [fixtureAttempt (some 5), fixtureAttempt none] := by
    have hfailed : (fixtureAttempt (some 5)).failedAfter = some 5 := rfl
    have hdone : (fixtureAttempt none).failedAfter = none := rfl
    simp only [leftoverAfter, fixture_event, hfailed, hdone, reduceCtorEq, if_false]
    rw [leftoverNext_retried (fixtureCodec.record_pos _)]
    exact List.not_mem_nil
  exact ((replay_iff_covered fixtureCodec _ hreads).mpr hcovered 0).1

/-- An append that wrote its whole record and then failed is recovered although it was never
appended. -/
theorem replay_of_failed_append :
    accepted [] [fixtureAttempt (some (fixtureCodec.record ((fixtureAttempt none).event 1)).length)] =
      [] ∧
    ¬ Paged (HostJournalReplay.nextPage fixtureCodec)
      (.openFile (([fixtureAttempt (some (fixtureCodec.record
        ((fixtureAttempt none).event 1)).length)].foldl
          (HostJournal.appendEvent fixtureCodec) .create).file) 0) (.ok []) := by
  refine ⟨rfl, fun hpaged => ?_⟩
  have hreads : ∀ event ∈ attempted 0 [fixtureAttempt (some (fixtureCodec.record
      ((fixtureAttempt none).event 1)).length)], fixtureCodec.Reads event := by
    intro event hevent
    rw [List.mem_singleton.mp hevent, fixture_event]
    exact fixture_reads
  have hholds := HostJournal.holds_create.run hreads
  refine Nat.not_lt_zero _ (hholds.length_lt ?_ hpaged)
  simp only [leftoverAfter, fixture_event, List.length_nil, Nat.zero_add]
  exact mem_leftoverNext (fixtureCodec.record_pos _) []

end Fixture

end VibeKanban.Host
