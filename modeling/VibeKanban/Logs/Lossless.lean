import VibeKanban.Logs.PlainText
import Mathlib.Algebra.Order.BigOperators.Group.List
import Mathlib.Algebra.Order.Ring.Nat

/-! The entries of a plain-text log hold the text of its chunks while no chunk comes after the time
gap. -/
namespace VibeKanban.Logs
open Lib

section Buffer
variable {buffer : PlainTextBuffer}

theorem byteLen_append (a b : List Char) : byteLen (a ++ b) = byteLen a + byteLen b := by
  unfold byteLen
  rw [List.map_append, List.sum_append]

theorem byteLen_flatten (lines : List (List Char)) :
    byteLen lines.flatten = (lines.map byteLen).sum := by
  induction lines with
  | nil => rfl
  | cons line rest ih => rw [List.flatten_cons, byteLen_append, ih, List.map_cons, List.sum_cons]

theorem byteLen_pos {text : List Char} (h : text ≠ []) : 0 < byteLen text := by
  cases text with
  | nil => exact absurd rfl h
  | cons c rest =>
    have hpos := c.utf8Size_pos
    unfold byteLen
    rw [List.map_cons, List.sum_cons]
    omega

/-- What the buffer keeps: its length, and no empty line. -/
structure Counted (buffer : PlainTextBuffer) : Prop where
  len : buffer.totalLen = (buffer.lines.map byteLen).sum
  nonempty : ∀ line ∈ buffer.lines, line ≠ []

theorem Counted.isEmpty_iff (h : Counted buffer) : buffer.isEmpty = true ↔ buffer.lines = [] := by
  unfold PlainTextBuffer.isEmpty
  rw [decide_eq_true_eq, h.len]
  constructor
  · intro hzero
    by_contra hne
    obtain ⟨line, hline⟩ := List.exists_mem_of_ne_nil _ hne
    have hpos := byteLen_pos (h.nonempty line hline)
    have hmem : byteLen line ∈ buffer.lines.map byteLen := List.mem_map_of_mem hline
    have hle := List.le_sum_of_mem hmem
    omega
  · intro hnil
    rw [hnil]
    rfl

theorem nonempty_splitInclusive (text : List Char) :
    ∀ line ∈ splitInclusive '\n' text, line ≠ [] := by
  have hlines := isLines_splitInclusive '\n' text
  generalize splitInclusive '\n' text = lines at hlines
  induction hlines with
  | nil => simp
  | unfinished _ hne => simpa using hne
  | line _ _ ih =>
    rw [List.forall_mem_cons]
    exact ⟨by simp, ih⟩

/-- Lines and a text after them are counted together. -/
theorem counted_append {lines : List (List Char)} (h : ∀ line ∈ lines, line ≠ [])
    (text : List Char) : Counted ⟨lines ++ splitInclusive '\n' text, (lines.map byteLen).sum + byteLen text⟩ := by
  constructor
  · show _ = ((lines ++ splitInclusive '\n' text).map byteLen).sum
    rw [List.map_append, List.sum_append, ← byteLen_flatten (splitInclusive '\n' text),
      flatten_splitInclusive]
  · intro line hline
    rcases List.mem_append.mp hline with hold | hnew
    · exact h line hold
    · exact nonempty_splitInclusive text line hnew

theorem ingest_spec (h : Counted buffer) (textChunk : List Char) :
    Counted (buffer.ingest textChunk) ∧
    (buffer.ingest textChunk).lines.flatten = buffer.lines.flatten ++ textChunk := by
  -- either the last line is unfinished and grows, or new lines are added
  have hadded : Counted ⟨buffer.lines ++ splitInclusive '\n' textChunk,
      buffer.totalLen + byteLen textChunk⟩ := by
    rw [h.len]
    exact counted_append h.nonempty textChunk
  have htext : (buffer.lines ++ splitInclusive '\n' textChunk).flatten =
      buffer.lines.flatten ++ textChunk := by
    rw [List.flatten_append, flatten_splitInclusive]
  unfold PlainTextBuffer.ingest
  cases hlast : buffer.lines.getLast? with
  | none => exact ⟨hadded, htext⟩
  | some last =>
    by_cases hfinished : last.getLast? = some '\n'
    · simp only [hfinished, ne_eq, not_true_eq_false, if_false]
      exact ⟨hadded, htext⟩
    · simp only [ne_eq, hfinished, not_false_eq_true, if_true]
      obtain ⟨front, hfront⟩ := List.getLast?_eq_some_iff.mp hlast
      have hlen := h.len
      rw [hfront, List.map_append, List.sum_append, List.map_singleton, List.sum_singleton] at hlen
      have hpopped : buffer.totalLen - byteLen last = (front.map byteLen).sum := by omega
      rw [hpopped, hfront, List.dropLast_concat]
      constructor
      · apply counted_append
        intro line hline
        exact h.nonempty line (hfront ▸ List.mem_append_left _ hline)
      · rw [List.flatten_append, flatten_splitInclusive, List.flatten_append, List.flatten_singleton,
          List.append_assoc]

theorem linesToDrain_pos {len drainedLen linesSoFar : ℕ} {lines : List (List Char)} (h : lines ≠ []) :
    0 < PlainTextBuffer.linesToDrain len drainedLen linesSoFar lines := by
  induction lines generalizing drainedLen linesSoFar with
  | nil => exact absurd rfl h
  | cons line rest ih =>
    rw [PlainTextBuffer.linesToDrain]
    split_ifs with hfull
    · exact hfull.2
    · cases rest with
      | nil => exact Nat.succ_pos _
      | cons _ _ => exact ih (List.cons_ne_nil _ _)

theorem drainSize_spec (h : Counted buffer) (len : ℕ) :
    Counted (buffer.drainSize len).2 ∧
      (buffer.drainSize len).1 ++ (buffer.drainSize len).2.lines = buffer.lines ∧
      (buffer.lines ≠ [] → (buffer.drainSize len).1 ≠ []) := by
  unfold PlainTextBuffer.drainSize
  generalize hn : PlainTextBuffer.linesToDrain len 0 0 buffer.lines = n
  have hsubtracted : ∀ (lines : List (List Char)) (total : ℕ),
      lines.foldl (fun len line => len - byteLen line) total = total - (lines.map byteLen).sum := by
    intro lines
    induction lines with
    | nil => simp
    | cons line rest ih =>
      intro total
      rw [List.foldl_cons, ih, List.map_cons, List.sum_cons]
      omega
  refine ⟨⟨?_, fun line hline => h.nonempty line (List.mem_of_mem_drop hline)⟩,
    List.take_append_drop n buffer.lines, ?_⟩
  · show (buffer.lines.take n).foldl _ buffer.totalLen = ((buffer.lines.drop n).map byteLen).sum
    have hsplit := congrArg (fun lines => (lines.map byteLen).sum)
      (List.take_append_drop n buffer.lines)
    simp only [List.map_append, List.sum_append] at hsplit
    rw [hsubtracted, h.len]
    omega
  · intro hne
    have hpos := @linesToDrain_pos len 0 0 _ hne
    show buffer.lines.take n ≠ []
    rw [ne_eq, List.take_eq_nil_iff, not_or]
    exact ⟨by omega, hne⟩

end Buffer

section Entries
variable {entries done : Entries} {index : ℕ} {content old : List Char}

def concatenated (entries : Entries) : List Char := entries.flatMap Prod.snd

theorem concatenated_append (front back : Entries) :
    concatenated (front ++ back) = concatenated front ++ concatenated back :=
  List.flatMap_append

theorem upsertEntry_new (h : ∀ entry ∈ done, entry.1 < index) :
    upsertEntry index content done = done ++ [(index, content)] := by
  induction done with
  | nil => rfl
  | cons entry rest ih =>
    rw [List.forall_mem_cons] at h
    rw [upsertEntry, if_neg (by omega), if_neg (by omega), ih h.2, List.cons_append]

theorem upsertEntry_last (h : ∀ entry ∈ done, entry.1 < index) :
    upsertEntry index content (done ++ [(index, old)]) = done ++ [(index, content)] := by
  induction done with
  | nil => simp [upsertEntry]
  | cons entry rest ih =>
    rw [List.forall_mem_cons] at h
    rw [List.cons_append, upsertEntry, if_neg (by omega), if_neg (by omega), ih h.2,
      List.cons_append]

end Entries

namespace PlainTextLogProcessor
variable {indices : ℕ → ℕ} {processor : PlainTextLogProcessor} {entries done : Entries}

/-- The entries are some done ones and at most the current one, and the next index is free. -/
structure Holds (indices : ℕ → ℕ) (processor : PlainTextLogProcessor) (entries done : Entries) :
    Prop where
  split : (processor.currentEntryIndex = none ∧ entries = done) ∨
    ∃ index content, processor.currentEntryIndex = some index ∧
      entries = done ++ [(index, content)] ∧ ∀ entry ∈ done, entry.1 < index
  free : ∀ entry ∈ entries, entry.1 < indices processor.taken

theorem createPatch_holds (hindices : StrictMono indices)
    (h : processor.Holds indices entries done) (lines : List (List Char)) : ∃ index,
      (processor.createPatch indices lines).1.currentEntryIndex = some index ∧
      applyPatch entries (processor.createPatch indices lines).2 =
        done ++ [(index, lines.flatten)] ∧
      (processor.createPatch indices lines).1.Holds indices
        (done ++ [(index, lines.flatten)]) done := by
  unfold createPatch
  rcases h.split with ⟨hcurrent, rfl⟩ | ⟨index, content, hcurrent, rfl, hdone⟩
  · rw [hcurrent]
    refine ⟨indices processor.taken, rfl, upsertEntry_new h.free, ?_, ?_⟩
    · exact .inr ⟨_, _, rfl, rfl, h.free⟩
    · have hnext : indices processor.taken < indices (processor.taken + 1) := hindices (by omega)
      intro entry hentry
      rcases List.mem_append.mp hentry with hold | hnew
      · exact (h.free entry hold).trans hnext
      · rw [List.mem_singleton.mp hnew]
        exact hnext
  · rw [hcurrent]
    refine ⟨index, hcurrent, upsertEntry_last hdone, ?_, ?_⟩
    · exact .inr ⟨_, _, hcurrent, rfl, hdone⟩
    · intro entry hentry
      rcases List.mem_append.mp hentry with hold | hnew
      · exact h.free entry (List.mem_append_left _ hold)
      · rw [List.mem_singleton.mp hnew]
        exact h.free (index, content) (by simp)

/-- Text is moved from the buffer to entries that are done. -/
structure Moved (indices : ℕ → ℕ) (processor : PlainTextLogProcessor) (done : Entries)
    (moved : PlainTextLogProcessor) (entries split : Entries) : Prop where
  holds : moved.Holds indices entries split
  counted : Counted moved.buffer
  live : moved.buffer.lines = [] → moved.currentEntryIndex = none
  keeps : done <+: split
  text : concatenated split ++ moved.buffer.lines.flatten =
    concatenated done ++ processor.buffer.lines.flatten

theorem splitBySize_moved (hindices : StrictMono indices) (sizeThreshold : ℕ)
    (h : processor.Holds indices entries done) (hcounted : Counted processor.buffer)
    (hlive : processor.buffer.lines = [] → processor.currentEntryIndex = none) :
    ∃ split, Moved indices processor done (processor.splitBySize indices sizeThreshold).1
      ((processor.splitBySize indices sizeThreshold).2.foldl applyPatch entries) split := by
  fun_induction splitBySize indices sizeThreshold processor generalizing entries done with
  | case1 processor hsize drained =>
    rename_i hempty
    obtain ⟨hrest, hlines, hsome⟩ := drainSize_spec hcounted sizeThreshold
    have hnil : (processor.buffer.drainSize sizeThreshold).1 = [] := List.isEmpty_iff.mp hempty
    rw [hnil, List.nil_append] at hlines
    refine ⟨done, ⟨h.split, h.free⟩, hrest, ?_, List.prefix_rfl, ?_⟩
    · intro hdrained
      exact hlive (hlines ▸ hdrained)
    · show concatenated done ++ (processor.buffer.drainSize sizeThreshold).2.lines.flatten = _
      rw [hlines]
  | case2 processor hsize drained hnonempty patched =>
    rename_i rest ih
    obtain ⟨hrest, hlines, -⟩ := drainSize_spec hcounted sizeThreshold
    obtain ⟨index, -, hentries, hheld⟩ := createPatch_holds hindices
      (⟨h.split, h.free⟩ : Holds indices { processor with buffer := drained.2 } entries done)
      drained.1
    have hbuffer : patched.1.buffer = drained.2 := createPatch_buffer indices _ _
    -- the entry of the drained lines is done
    have hcounted' : Counted patched.1.buffer := hbuffer ▸ hrest
    obtain ⟨split, hmoved⟩ := @ih (done ++ [(index, drained.1.flatten)])
      (done ++ [(index, drained.1.flatten)]) ⟨.inl ⟨rfl, rfl⟩, hheld.free⟩ hcounted' (fun _ => rfl)
    refine ⟨split, ?_, hmoved.counted, hmoved.live, (List.prefix_append _ _).trans hmoved.keeps, ?_⟩
    · show Holds indices _ (rest.2.foldl applyPatch (applyPatch entries patched.2)) split
      rw [hentries]
      exact hmoved.holds
    · have htext := hmoved.text
      rw [concatenated_append] at htext
      rw [htext, ← hlines, List.flatten_append, ← List.append_assoc]
      show _ ++ patched.1.buffer.lines.flatten = _
      rw [hbuffer]
      simp [concatenated, drained]
  | case3 processor hsize =>
    exact ⟨done, h, hcounted, hlive, List.prefix_rfl, rfl⟩

/-- A chunk comes after the time gap while text is in the buffer. -/
def Gapped (config : ProcessorConfig) (processor : PlainTextLogProcessor) (now : ℕ) : Prop :=
  processor.buffer.lines ≠ [] ∧
    ∃ timeGap ∈ config.timeGap, timeGap ≤ now - processor.lastChunkArrivalTime

end PlainTextLogProcessor

section Step
variable {indices : ℕ → ℕ} {config : ProcessorConfig} {processor : PlainTextLogProcessor}
  {entries done : Entries} {arrival : Arrival}
open PlainTextLogProcessor

theorem gapped_iff (config : ProcessorConfig) (now : ℕ) (hcounted : Counted processor.buffer) :
    (!processor.buffer.isEmpty && config.timeGap.any fun timeGap =>
      timeGap ≤ now - processor.lastChunkArrivalTime) = true ↔ Gapped config processor now := by
  unfold Gapped
  rw [Bool.and_eq_true, Bool.not_eq_true', ← Bool.not_eq_true, hcounted.isEmpty_iff,
    Option.any_eq_true]
  simp

/-- What every state of a run has: the text that is not done fits the current entry. -/
structure Bounded (indices : ℕ → ℕ) (state : PlainTextLogProcessor × Entries) (done : Entries) :
    Prop where
  holds : state.1.Holds indices state.2 done
  counted : Counted state.1.buffer
  bound : (concatenated done).length + state.1.buffer.lines.flatten.length ≤
    (concatenated state.2).length

/-- The entries are the done ones and the text of the buffer. -/
structure Streams (indices : ℕ → ℕ) (state : PlainTextLogProcessor × Entries) (done : Entries) :
    Prop where
  holds : state.1.Holds indices state.2 done
  counted : Counted state.1.buffer
  live : state.1.buffer.lines = [] → state.1.currentEntryIndex = none
  text : concatenated state.2 = concatenated done ++ state.1.buffer.lines.flatten

theorem Streams.bounded {state : PlainTextLogProcessor × Entries} (h : Streams indices state done) :
    Bounded indices state done := by
  refine ⟨h.holds, h.counted, ?_⟩
  rw [h.text, List.length_append]

theorem splitLarge_moved (hindices : StrictMono indices) (config : ProcessorConfig)
    (h : processor.Holds indices entries done) (hcounted : Counted processor.buffer)
    (hlive : processor.buffer.lines = [] → processor.currentEntryIndex = none) :
    ∃ split, Moved indices processor done (splitLarge indices config processor).1
      ((splitLarge indices config processor).2.foldl applyPatch entries) split := by
  unfold splitLarge
  cases config.entrySizeThreshold with
  | none => exact ⟨done, h, hcounted, hlive, List.prefix_rfl, rfl⟩
  | some sizeThreshold => exact splitBySize_moved hindices sizeThreshold h hcounted hlive

/-- With the rest of the buffer sent, the entries have all the text. -/
theorem sendPartial_streams (hindices : StrictMono indices)
    {moved : PlainTextLogProcessor × List EntryPatch} {split : Entries}
    (h : Moved indices processor done moved.1 (moved.2.foldl applyPatch entries) split) :
    Streams indices ((sendPartial indices moved).1,
        (sendPartial indices moved).2.foldl applyPatch entries) split ∧
      concatenated ((sendPartial indices moved).2.foldl applyPatch entries) =
        concatenated done ++ processor.buffer.lines.flatten := by
  unfold sendPartial
  by_cases hempty : moved.1.buffer.isEmpty = true
  · have hlines := h.counted.isEmpty_iff.mp hempty
    have hnone := h.live hlines
    rw [if_neg (by simp [hempty])]
    rcases h.holds.split with ⟨-, heq⟩ | ⟨index, content, hsome, -⟩
    · have htext := h.text
      rw [hlines, List.flatten_nil, List.append_nil] at htext
      refine ⟨⟨h.holds, h.counted, h.live, ?_⟩, ?_⟩
      · rw [hlines, List.flatten_nil, List.append_nil, heq]
      · rw [heq, htext]
    · rw [hnone] at hsome
      cases hsome
  · obtain ⟨index, hcurrent, hentries, hholds⟩ :=
      createPatch_holds hindices h.holds moved.1.buffer.lines
    have hbuffer := createPatch_buffer indices moved.1 moved.1.buffer.lines
    have hlines := h.counted.isEmpty_iff.not.mp hempty
    have hpatched : (moved.2 ++ [(moved.1.createPatch indices moved.1.buffer.lines).2]).foldl
        applyPatch entries = split ++ [(index, moved.1.buffer.lines.flatten)] := by
      rw [List.foldl_append]
      exact hentries
    have htext : concatenated (split ++ [(index, moved.1.buffer.lines.flatten)]) =
        concatenated split ++ moved.1.buffer.lines.flatten := by
      rw [concatenated_append]
      simp [concatenated]
    rw [if_pos (by simp [hempty])]
    simp only [hpatched]
    refine ⟨⟨hholds, ?_, ?_, ?_⟩, ?_⟩
    · rw [hbuffer]
      exact h.counted
    · intro hnil
      rw [hbuffer] at hnil
      exact absurd hnil hlines
    · rw [hbuffer, htext]
    · rw [htext, h.text]

/-- A chunk in time is put after the text of the buffer. -/
theorem step_prompt (hindices : StrictMono indices) (hholds : processor.Holds indices entries done)
    (hcounted : Counted processor.buffer) (hchunk : arrival.textChunk ≠ [])
    (hprompt : ¬ Gapped config processor arrival.now) :
    ∃ split, Streams indices (step indices config (processor, entries) arrival) split ∧
      done <+: split ∧ concatenated (step indices config (processor, entries) arrival).2 =
        concatenated done ++ processor.buffer.lines.flatten ++ arrival.textChunk := by
  have hgapped := (gapped_iff config arrival.now hcounted).not.mpr hprompt
  obtain ⟨hingested, htext⟩ := ingest_spec hcounted arrival.textChunk
  have hlive : (processor.buffer.ingest arrival.textChunk).lines = [] →
      processor.currentEntryIndex = none := by
    intro hnil
    rw [hnil, List.flatten_nil] at htext
    exact absurd (List.append_eq_nil_iff.mp htext.symm).2 hchunk
  let arrived := { processor with
    lastChunkArrivalTime := arrival.now, buffer := processor.buffer.ingest arrival.textChunk }
  have hprocess : processor.process indices config arrival.now arrival.textChunk =
      sendPartial indices (splitLarge indices config arrived) := by
    unfold process
    rw [if_neg (by simpa using hchunk)]
    simp only [hgapped, Bool.false_eq_true, false_and, if_false]
    rfl
  obtain ⟨split, hmoved⟩ := splitLarge_moved hindices config
    (⟨hholds.split, hholds.free⟩ : arrived.Holds indices entries done) hingested hlive
  obtain ⟨hstreams, hentries⟩ := sendPartial_streams hindices hmoved
  unfold step
  rw [hprocess]
  refine ⟨split, hstreams, hmoved.keeps, ?_⟩
  rw [hentries, List.append_assoc, ← htext]

/-- A chunk after the gap is not put anywhere. -/
theorem step_gapped (hindices : StrictMono indices) (hholds : processor.Holds indices entries done)
    (hcounted : Counted processor.buffer) (hchunk : arrival.textChunk ≠ [])
    (hgap : Gapped config processor arrival.now) :
    Bounded indices (step indices config (processor, entries) arrival) done ∧
      concatenated (step indices config (processor, entries) arrival).2 =
        concatenated done ++ processor.buffer.lines.flatten := by
  have hgapped := (gapped_iff config arrival.now hcounted).mpr hgap
  have hlines : (!processor.buffer.flush.1.isEmpty) = true := by
    simpa [PlainTextBuffer.flush] using hgap.1
  let flushed := { processor with buffer := processor.buffer.flush.2 }
  have hprocess : processor.process indices config arrival.now arrival.textChunk =
      ((flushed.createPatch indices processor.buffer.lines).1,
        [(flushed.createPatch indices processor.buffer.lines).2]) := by
    unfold process
    rw [if_neg (by simpa using hchunk)]
    simp only [hgapped, hlines, and_self, if_true]
    rfl
  obtain ⟨index, hcurrent, hentries, hpatched⟩ := createPatch_holds hindices
    (⟨hholds.split, hholds.free⟩ : flushed.Holds indices entries done) processor.buffer.lines
  have hbuffer : (flushed.createPatch indices processor.buffer.lines).1.buffer = ⟨[], 0⟩ :=
    createPatch_buffer indices flushed _
  have htext : concatenated (done ++ [(index, processor.buffer.lines.flatten)]) =
      concatenated done ++ processor.buffer.lines.flatten := by
    rw [concatenated_append]
    simp [concatenated]
  unfold step
  rw [hprocess]
  simp only [List.foldl_cons, List.foldl_nil, hentries, htext]
  refine ⟨⟨hpatched, ?_, ?_⟩, trivial⟩
  · rw [hbuffer]
    exact ⟨rfl, fun _ h => nomatch h⟩
  · rw [hbuffer, htext]
    simp

end Step

section Run
variable {indices : ℕ → ℕ} {config : ProcessorConfig} {state : PlainTextLogProcessor × Entries}
  {done : Entries} {arrivals : List Arrival}
open PlainTextLogProcessor

/-- No chunk comes after the time gap. -/
def Prompt (indices : ℕ → ℕ) (config : ProcessorConfig) :
    PlainTextLogProcessor × Entries → List Arrival → Prop
  | _, [] => True
  | state, arrival :: rest => (arrival.textChunk ≠ [] → ¬ Gapped config state.1 arrival.now) ∧
    Prompt indices config (step indices config state arrival) rest

theorem prompt_append {earlier later : List Arrival} :
    Prompt indices config state (earlier ++ later) ↔
      Prompt indices config state earlier ∧
        Prompt indices config (run indices config state earlier) later := by
  induction earlier generalizing state with
  | nil => simp [Prompt, run]
  | cons arrival rest ih =>
    rw [List.cons_append, Prompt, Prompt, ih, and_assoc]
    rfl

theorem step_empty {arrival : Arrival} (h : arrival.textChunk = []) :
    step indices config state arrival = state := by
  unfold step process
  rw [h]
  rfl

theorem run_prompt (hindices : StrictMono indices) (h : Streams indices state done)
    (hprompt : Prompt indices config state arrivals) :
    ∃ split, Streams indices (run indices config state arrivals) split ∧ done <+: split ∧
      concatenated (run indices config state arrivals).2 =
        concatenated state.2 ++ arrivals.flatMap Arrival.textChunk := by
  induction arrivals generalizing state done with
  | nil => exact ⟨done, h, List.prefix_rfl, (List.append_nil _).symm⟩
  | cons arrival rest ih =>
    obtain ⟨hfirst, hrest⟩ := hprompt
    have hrun : run indices config state (arrival :: rest) =
        run indices config (step indices config state arrival) rest := rfl
    rw [hrun, List.flatMap_cons]
    by_cases hchunk : arrival.textChunk = []
    · rw [step_empty hchunk] at hrest ⊢
      rw [hchunk, List.nil_append]
      exact ih h hrest
    · obtain ⟨middle, hmiddle, hkeeps, htext⟩ :=
        step_prompt hindices h.holds h.counted hchunk (hfirst hchunk)
      obtain ⟨split, hsplit, hlater, hfinal⟩ := ih hmiddle hrest
      refine ⟨split, hsplit, hkeeps.trans hlater, ?_⟩
      rw [hfinal, htext, ← h.text, List.append_assoc]

/-- No run has more text in its entries than came, and one with a gap has less. -/
theorem run_bounded (hindices : StrictMono indices) (h : Bounded indices state done) :
    (concatenated (run indices config state arrivals).2).length ≤
        (concatenated state.2).length + (arrivals.flatMap Arrival.textChunk).length ∧
      Counted (run indices config state arrivals).1.buffer ∧
      (¬ Prompt indices config state arrivals →
        (concatenated (run indices config state arrivals).2).length <
          (concatenated state.2).length + (arrivals.flatMap Arrival.textChunk).length) := by
  induction arrivals generalizing state done with
  | nil => exact ⟨Nat.le_add_right _ _, h.counted, fun hlate => absurd trivial hlate⟩
  | cons arrival rest ih =>
    have hrun : run indices config state (arrival :: rest) =
        run indices config (step indices config state arrival) rest := rfl
    rw [hrun, List.flatMap_cons, List.length_append, Prompt]
    obtain ⟨processor, entries⟩ := state
    have hbound : (concatenated done).length + processor.buffer.lines.flatten.length ≤
        (concatenated entries).length := h.bound
    have hholds : processor.Holds indices entries done := h.holds
    have hbuffer : Counted processor.buffer := h.counted
    show _ ≤ (concatenated entries).length + _ ∧ _ ∧ (_ → _ < (concatenated entries).length + _)
    by_cases hchunk : arrival.textChunk = []
    · rw [step_empty hchunk, hchunk, List.length_nil, Nat.zero_add]
      simpa using ih h
    · by_cases hgap : Gapped config processor arrival.now
      · obtain ⟨hnext, htext⟩ := step_gapped hindices hholds hbuffer hchunk hgap
        obtain ⟨hle, hcounted, -⟩ := ih hnext
        have hlost := List.length_pos_iff.mpr hchunk
        rw [htext, List.length_append] at hle
        refine ⟨by omega, hcounted, fun _ => by omega⟩
      · obtain ⟨split, hnext, -, htext⟩ := step_prompt hindices hholds hbuffer hchunk hgap
        obtain ⟨hle, hcounted, hlt⟩ := ih hnext.bounded
        rw [htext, List.length_append, List.length_append] at hle hlt
        refine ⟨by omega, hcounted, ?_⟩
        intro hlate
        have hrest : ¬ Prompt indices config (step indices config (processor, entries) arrival)
            rest := fun hprompt => hlate ⟨fun _ => hgap, hprompt⟩
        have := hlt hrest
        omega

/-- The text of the entry has left the buffer. -/
def Flushed (processor : PlainTextLogProcessor) (index : ℕ) : Prop :=
  processor.buffer.lines = [] ∨ processor.currentEntryIndex ≠ some index

theorem Streams.mem_done (h : Streams indices state done) {entry : ℕ × List Char}
    (hentry : entry ∈ state.2) (hflushed : Flushed state.1 entry.1) : entry ∈ done := by
  rcases h.holds.split with ⟨-, heq⟩ | ⟨index, content, hcurrent, heq, -⟩
  · exact heq ▸ hentry
  · rw [heq, List.mem_append, List.mem_singleton] at hentry
    rcases hentry with hdone | rfl
    · exact hdone
    · rcases hflushed with hlines | hother
      · rw [h.live hlines] at hcurrent
        cases hcurrent
      · exact absurd hcurrent hother

/-- In every state reached the entries have the text of the chunks so far, the buffer's length is
that of its lines, and the entries whose text has left the buffer stay as they are. -/
def Lossless (indices : ℕ → ℕ) (config : ProcessorConfig) (start : ℕ) (arrivals : List Arrival) :
    Prop :=
  ∀ earlier later, arrivals = earlier ++ later →
    let reached := run indices config (.new start, []) earlier
    concatenated reached.2 = earlier.flatMap Arrival.textChunk ∧
      reached.1.buffer.totalLen = (reached.1.buffer.lines.map byteLen).sum ∧
      ∀ entry ∈ reached.2, Flushed reached.1 entry.1 →
        entry ∈ (run indices config reached later).2

theorem streams_new (indices : ℕ → ℕ) (start : ℕ) : Streams indices (.new start, []) [] :=
  ⟨⟨.inl ⟨rfl, rfl⟩, fun _ h => nomatch h⟩, ⟨rfl, fun _ h => nomatch h⟩, fun _ => rfl, rfl⟩

/-- No text is lost exactly when no chunk comes after the time gap with text in the buffer. -/
theorem lossless_iff (hindices : StrictMono indices) (start : ℕ) :
    Lossless indices config start arrivals ↔ Prompt indices config (.new start, []) arrivals := by
  have hnew := streams_new indices start
  constructor
  · intro h
    by_contra hlate
    have hlost := (run_bounded hindices hnew.bounded).2.2 hlate
    obtain ⟨htext, -, -⟩ := h arrivals [] (List.append_nil _).symm
    rw [htext] at hlost
    simp [concatenated] at hlost
  · rintro hprompt earlier later rfl
    obtain ⟨hearlier, hlater⟩ := prompt_append.mp hprompt
    obtain ⟨middle, hmiddle, -, htext⟩ := run_prompt hindices hnew hearlier
    refine ⟨htext, hmiddle.counted.len, ?_⟩
    intro entry hentry hflushed
    obtain ⟨split, hsplit, hkeeps, -⟩ := run_prompt hindices hmiddle hlater
    have hdone : entry ∈ split := hkeeps.subset (hmiddle.mem_done hentry hflushed)
    rcases hsplit.holds.split with ⟨-, heq⟩ | ⟨index, content, -, heq, -⟩
    · exact heq ▸ hdone
    · rw [heq]
      exact List.mem_append_left _ hdone

end Run

/-- Two chunks of a line, and one after the gap. -/
def lateChunk : List Arrival :=
  [⟨0, "a\n".toList⟩, ⟨1, "b".toList⟩, ⟨9, "c\n".toList⟩]

theorem lossless_iff_late :
    Lossless id (.new none (some 20)) 0 lateChunk ↔
      Prompt id (.new none (some 20)) (.new 0, []) lateChunk :=
  lossless_iff strictMono_id 0

/-- The chunk after the gap is lost. -/
theorem late_chunk_lost : ¬ Lossless id (.new none (some 5)) 0 lateChunk := by
  intro h
  have htext := (h lateChunk [] rfl).1
  revert htext
  decide

end VibeKanban.Logs
