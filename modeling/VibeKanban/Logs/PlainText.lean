import Mathlib
import VibeKanban.Lib.Lines

/-! The processor of plain-text logs, which gathers chunks of text into entries by size and by time.
No formatter, line transform or boundary predicate is set. -/
namespace VibeKanban.Logs
open Lib

/-- The length of a string in bytes. -/
def byteLen (text : List Char) : ℕ := (text.map Char.utf8Size).sum

structure PlainTextBuffer where
  lines : List (List Char)
  totalLen : ℕ
  deriving DecidableEq

namespace PlainTextBuffer

def new : PlainTextBuffer := ⟨[], 0⟩

/-- The last line is grown when it is unfinished. -/
def ingest (buffer : PlainTextBuffer) (textChunk : List Char) : PlainTextBuffer :=
  let popped : List (List Char) × ℕ × List Char :=
    match buffer.lines.getLast? with
    | some last =>
      if last.getLast? ≠ some '\n' then
        (buffer.lines.dropLast, buffer.totalLen - byteLen last, last)
      else (buffer.lines, buffer.totalLen, [])
    | none => (buffer.lines, buffer.totalLen, [])
  let combinedText := popped.2.2 ++ textChunk
  ⟨popped.1 ++ splitInclusive '\n' combinedText, popped.2.1 + byteLen combinedText⟩

def drainLines (buffer : PlainTextBuffer) (n : ℕ) : List (List Char) × PlainTextBuffer :=
  let drained := buffer.lines.take n
  let totalLen := drained.foldl (fun len line => len - byteLen line) buffer.totalLen
  (drained, ⟨buffer.lines.drop n, totalLen⟩)

/-- How many lines make up a length, at least one of them. -/
def linesToDrain (len drainedLen linesSoFar : ℕ) : List (List Char) → ℕ
  | [] => linesSoFar
  | line :: rest =>
    if len ≤ drainedLen ∧ 0 < linesSoFar then linesSoFar
    else linesToDrain len (drainedLen + byteLen line) (linesSoFar + 1) rest

def drainSize (buffer : PlainTextBuffer) (len : ℕ) : List (List Char) × PlainTextBuffer :=
  buffer.drainLines (linesToDrain len 0 0 buffer.lines)

def flush (buffer : PlainTextBuffer) : List (List Char) × PlainTextBuffer := (buffer.lines, ⟨[], 0⟩)

theorem drainSize_shorter {buffer : PlainTextBuffer} {len : ℕ} (h : (buffer.drainSize len).1 ≠ []) :
    (buffer.drainSize len).2.lines.length < buffer.lines.length := by
  unfold drainSize drainLines at h ⊢
  simp only [ne_eq, List.take_eq_nil_iff, not_or] at h
  have hpos := List.length_pos_iff.mpr h.2
  rw [List.length_drop]
  omega

def isEmpty (buffer : PlainTextBuffer) : Bool := buffer.totalLen = 0

end PlainTextBuffer

/-- A patch of an entry, with the text that the entry is made of. -/
inductive EntryPatch where
  | add (index : ℕ) (content : List Char)
  | replace (index : ℕ) (content : List Char)
  deriving DecidableEq

structure ProcessorConfig where
  entrySizeThreshold : Option ℕ
  timeGap : Option ℕ

/-- Without a size threshold and a time gap, the threshold is 8 KiB. -/
def ProcessorConfig.new (sizeThreshold timeGap : Option ℕ) : ProcessorConfig where
  entrySizeThreshold :=
    if sizeThreshold.isNone ∧ timeGap.isNone then some (8 * 1024) else sizeThreshold
  timeGap := timeGap

/-- `taken` counts the indices that the processor took from the provider. -/
structure PlainTextLogProcessor where
  buffer : PlainTextBuffer
  lastChunkArrivalTime : ℕ
  currentEntryIndex : Option ℕ
  taken : ℕ
  deriving DecidableEq

namespace PlainTextLogProcessor

def new (now : ℕ) : PlainTextLogProcessor := ⟨.new, now, none, 0⟩

section Process
variable (indices : ℕ → ℕ)

/-- `indices` are what the shared provider gives to this processor, call by call. -/
def createPatch (processor : PlainTextLogProcessor) (lines : List (List Char)) :
    PlainTextLogProcessor × EntryPatch :=
  let content := lines.flatten
  match processor.currentEntryIndex with
  | some index => (processor, .replace index content)
  | none =>
    let index := indices processor.taken
    ({ processor with currentEntryIndex := some index, taken := processor.taken + 1 },
      .add index content)

theorem createPatch_buffer (processor : PlainTextLogProcessor) (lines : List (List Char)) :
    (processor.createPatch indices lines).1.buffer = processor.buffer := by
  unfold createPatch
  cases processor.currentEntryIndex <;> rfl

/-- Entries of the threshold's size are split off the buffer. -/
def splitBySize (sizeThreshold : ℕ) (processor : PlainTextLogProcessor) :
    PlainTextLogProcessor × List EntryPatch :=
  if sizeThreshold ≤ processor.buffer.totalLen then
    let drained := processor.buffer.drainSize sizeThreshold
    if drained.1.isEmpty then ({ processor with buffer := drained.2 }, [])
    else
      let patched := { processor with buffer := drained.2 }.createPatch indices drained.1
      let rest := splitBySize sizeThreshold { patched.1 with currentEntryIndex := none }
      (rest.1, patched.2 :: rest.2)
  else (processor, [])
termination_by processor.buffer.lines.length
decreasing_by
  rename_i hdrained
  rw [createPatch_buffer]
  exact PlainTextBuffer.drainSize_shorter (by simpa using hdrained)

def splitLarge (config : ProcessorConfig) (processor : PlainTextLogProcessor) :
    PlainTextLogProcessor × List EntryPatch :=
  match config.entrySizeThreshold with
  | some sizeThreshold => splitBySize indices sizeThreshold processor
  | none => (processor, [])

/-- What is left in the buffer is sent and stays there. -/
def sendPartial (split : PlainTextLogProcessor × List EntryPatch) :
    PlainTextLogProcessor × List EntryPatch :=
  if !split.1.buffer.isEmpty then
    let patched := split.1.createPatch indices split.1.buffer.lines
    (patched.1, split.2 ++ [patched.2])
  else split

def process (config : ProcessorConfig) (processor : PlainTextLogProcessor) (now : ℕ)
    (textChunk : List Char) : PlainTextLogProcessor × List EntryPatch :=
  if textChunk.isEmpty then (processor, [])
  else
    let gapped := !processor.buffer.isEmpty &&
      config.timeGap.any fun timeGap => timeGap ≤ now - processor.lastChunkArrivalTime
    let flushed := processor.buffer.flush
    if gapped ∧ !flushed.1.isEmpty then
      -- the chunk that came after the gap is not looked at
      let patched := { processor with buffer := flushed.2 }.createPatch indices flushed.1
      (patched.1, [patched.2])
    else
      let current :=
        if gapped then { processor with buffer := flushed.2, currentEntryIndex := none }
        else processor
      let arrived :=
        { current with lastChunkArrivalTime := now, buffer := current.buffer.ingest textChunk }
      sendPartial indices (splitLarge indices config arrived)

end Process

end PlainTextLogProcessor

/-- The entries in the order of their indices. -/
abbrev Entries := List (ℕ × List Char)

/-- An entry is put at its index, in place of one that is there. -/
def upsertEntry (index : ℕ) (content : List Char) : Entries → Entries
  | [] => [(index, content)]
  | entry :: rest =>
    if index < entry.1 then (index, content) :: entry :: rest
    else if index = entry.1 then (index, content) :: rest
    else entry :: upsertEntry index content rest

def applyPatch (entries : Entries) : EntryPatch → Entries
  | .add index content | .replace index content => upsertEntry index content entries

/-- A chunk of text and the time of its arrival. -/
structure Arrival where
  now : ℕ
  textChunk : List Char

/-- A chunk is processed and its patches are applied. -/
def step (indices : ℕ → ℕ) (config : ProcessorConfig) (state : PlainTextLogProcessor × Entries)
    (arrival : Arrival) : PlainTextLogProcessor × Entries :=
  let processed := state.1.process indices config arrival.now arrival.textChunk
  (processed.1, processed.2.foldl applyPatch state.2)

def run (indices : ℕ → ℕ) (config : ProcessorConfig) (state : PlainTextLogProcessor × Entries)
    (arrivals : List Arrival) : PlainTextLogProcessor × Entries :=
  arrivals.foldl (step indices config) state

end VibeKanban.Logs
