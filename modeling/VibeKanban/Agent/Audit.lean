import VibeKanban.Agent.Event
import VibeKanban.Lib.Lines
import VibeKanban.Lib.Tally

/-! The native audit of a run attempt: a writer that fails closed, and the reader of its bundle. -/
namespace VibeKanban.Agent
open Lib

inductive NativeAuditDirection where
  | input | output
  deriving DecidableEq, Repr

inductive NativeAuditChannel where
  | canonicalInput | nativeInput | nativeOutput | stdin | stdout | stderr | rpc | rpcRequest
  | rpcResponse | rpcNotification | sidecar
  | other (value : String)
  deriving DecidableEq, Repr

namespace NativeAuditChannel

def asStr : NativeAuditChannel → String
  | canonicalInput => "canonical_input"
  | nativeInput => "native_input"
  | nativeOutput => "native_output"
  | stdin => "stdin"
  | stdout => "stdout"
  | stderr => "stderr"
  | rpc => "rpc"
  | rpcRequest => "rpc_request"
  | rpcResponse => "rpc_response"
  | rpcNotification => "rpc_notification"
  | sidecar => "sidecar"
  | other value => value

def named : List NativeAuditChannel :=
  [canonicalInput, nativeInput, nativeOutput, stdin, stdout, stderr, rpc, rpcRequest, rpcResponse,
    rpcNotification, sidecar]

/-- How a channel is read: the untagged variant takes what is not the name of another one. -/
def fromStr (s : String) : NativeAuditChannel := (named.find? fun c => c.asStr = s).getD (other s)

/-- No `other` channel has the name of another variant. -/
def Proper (channel : NativeAuditChannel) : Prop :=
  ∀ value, channel = other value → ∀ c ∈ named, c.asStr ≠ value

theorem asStr_fromStr (s : String) : (fromStr s).asStr = s := by
  unfold fromStr
  cases hfound : named.find? fun c => c.asStr = s with
  | none => rfl
  | some c => simpa using List.find?_some hfound

theorem fromStr_asStr {channel : NativeAuditChannel} (h : channel.Proper) :
    fromStr channel.asStr = channel := by
  cases channel with
  | other value =>
    have hnone : named.find? (fun c => c.asStr = value) = none := by
      rw [List.find?_eq_none]
      intro c hc
      simpa using h value rfl c hc
    show (named.find? fun c => c.asStr = value).getD (other value) = other value
    rw [hnone]
    rfl
  | _ => rfl

end NativeAuditChannel

/-- A frame, with its channel as a value or by its name. `V` are the JSON values of its metadata. -/
structure FrameOf (C V : Type) where
  auditFormatVersion : ℕ
  sequence : ℕ
  timestamp : ℕ
  direction : NativeAuditDirection
  channel : C
  contentType : String
  correlationId : ℕ
  payloadBase64 : String
  payloadChecksum : String
  metadata : Option V
  deriving DecidableEq, Repr

abbrev NativeAuditFrame := FrameOf NativeAuditChannel

def FrameOf.mapChannel {C D V : Type} (f : C → D) (frame : FrameOf C V) : FrameOf D V :=
  { frame with channel := f frame.channel }

def newline : UInt8 := 10

/-- JSON lines, base64 and SHA-256. A member that is `null` is read as missing. -/
structure AuditCodec (V : Type) where
  isNull : V → Bool
  toVec : FrameOf String V → List UInt8
  fromSlice : List UInt8 → Option (FrameOf String V)
  encode : List UInt8 → String
  decode : String → Option (List UInt8)
  sha256 : List UInt8 → String
  fromSlice_toVec : ∀ frame, fromSlice (toVec frame) =
    some { frame with metadata := frame.metadata.filter fun value => !isNull value }
  newline_not_mem : ∀ frame, newline ∉ toVec frame
  toVec_ne_nil : ∀ frame, toVec frame ≠ []
  decode_encode : ∀ bytes, decode (encode bytes) = some bytes
  sha256_injective : Function.Injective sha256

inductive NativeAuditError where
  | io
  | invalidBase64
  | closed
  | sequenceMismatch (expected actual : ℕ)
  | payloadChecksumMismatch (sequence : ℕ) (expected actual : String)
  | streamChecksumMismatch (expected actual : String)
  | truncatedFrame
  | partialManifest
  | unsupportedVersion (provided current : ℕ)
  | malformedFrame (sequence : ℕ)
  | failedClosed
  deriving DecidableEq, Repr

/-- `opened` and `incomplete` are the source's Open and Partial. -/
inductive NativeAuditIntegrityStatus where
  | opened | complete | incomplete | corrupt | auditFailed | recovered
  deriving DecidableEq, Repr

/-- The manifest without what identifies the run and its versions. -/
structure NativeAuditManifest where
  auditSchemaVersion : ℕ
  runAttemptId : ℕ
  frameCount : ℕ
  firstSequence : Option ℕ
  lastSequence : Option ℕ
  finalChecksum : Option String
  integrityStatus : NativeAuditIntegrityStatus
  closedAt : Option ℕ
  deriving DecidableEq, Repr

def nativeAuditSchemaVersion : ℕ := 1

/-- The files of a bundle. There is no manifest when its file is missing. -/
structure AuditDirectory where
  manifest : Option NativeAuditManifest
  frames : List UInt8
  deriving DecidableEq, Repr

variable {C V : Type}

namespace FrameOf

def fromBytes (K : AuditCodec V) (sequence timestamp : ℕ) (direction : NativeAuditDirection)
    (channel : NativeAuditChannel) (contentType : String) (correlationId : ℕ)
    (payload : List UInt8) (metadata : Option V) : NativeAuditFrame V :=
  ⟨nativeAuditSchemaVersion, sequence, timestamp, direction, channel, contentType, correlationId,
    K.encode payload, K.sha256 payload, metadata⟩

def payloadBytes (K : AuditCodec V) (frame : FrameOf C V) :
    Except NativeAuditError (List UInt8) :=
  match K.decode frame.payloadBase64 with
  | none => .error .invalidBase64
  | some payload =>
    if K.sha256 payload ≠ frame.payloadChecksum then
      .error (.payloadChecksumMismatch frame.sequence frame.payloadChecksum (K.sha256 payload))
    else .ok payload

def validate (K : AuditCodec V) (frame : FrameOf C V) (expectedSequence : ℕ) :
    Except NativeAuditError Unit :=
  if frame.auditFormatVersion ≠ nativeAuditSchemaVersion then
    .error (.unsupportedVersion frame.auditFormatVersion nativeAuditSchemaVersion)
  else if frame.sequence ≠ expectedSequence then
    .error (.sequenceMismatch expectedSequence frame.sequence)
  else (frame.payloadBytes K).map fun _ => ()

/-- The line of a frame. -/
def line (K : AuditCodec V) (frame : NativeAuditFrame V) : List UInt8 :=
  K.toVec (frame.mapChannel NativeAuditChannel.asStr) ++ [newline]

end FrameOf

structure NativeAuditReference where
  streamId : ℕ
  sequence : ℕ
  checksum : Option String
  deriving DecidableEq, Repr

/-- The files, the manifest in memory and what went into the hash of the stream. -/
structure NativeAuditWriter where
  directory : AuditDirectory
  manifest : NativeAuditManifest
  nextSequence : ℕ
  streamHasher : List UInt8
  closed : Bool
  failed : Bool

namespace NativeAuditWriter

def createIn (runAttemptId : ℕ) : NativeAuditWriter :=
  let manifest : NativeAuditManifest :=
    ⟨nativeAuditSchemaVersion, runAttemptId, 0, none, none, none, .opened, none⟩
  ⟨⟨some manifest, []⟩, manifest, 1, [], false, false⟩

/-- Append a frame. A write that fails leaves any bytes behind. -/
def append (K : AuditCodec V) (w : NativeAuditWriter) (frame : NativeAuditFrame V)
    (written : Except (List UInt8) Unit) :
    Except NativeAuditError NativeAuditReference × NativeAuditWriter :=
  if w.closed then (.error .closed, w)
  else if w.failed then (.error .failedClosed, w)
  else match frame.validate K w.nextSequence with
    | .error error => (.error error, { w with failed := true })
    | .ok _ =>
      match written with
      | .error torn =>
        (.error .io, { w with
          directory := { w.directory with frames := w.directory.frames ++ torn }, failed := true })
      | .ok _ =>
        (.ok ⟨w.manifest.runAttemptId, frame.sequence, some frame.payloadChecksum⟩, { w with
          directory := { w.directory with frames := w.directory.frames ++ frame.line K }
          streamHasher := w.streamHasher ++ frame.line K
          manifest := { w.manifest with
            frameCount := w.manifest.frameCount + 1
            firstSequence := some (w.manifest.firstSequence.getD frame.sequence)
            lastSequence := some frame.sequence }
          nextSequence := w.nextSequence + 1 })

/-- What became of the manifest's file: written, left as it was, or lost. -/
inductive ManifestWrite where
  | written | kept | lost
  deriving DecidableEq, Repr

def closeWithStatus (K : AuditCodec V) (w : NativeAuditWriter) (status : NativeAuditIntegrityStatus)
    (now : ℕ) (synced : Bool) (write : ManifestWrite) :
    Except NativeAuditError NativeAuditManifest × NativeAuditWriter :=
  if w.closed then (.ok w.manifest, w)
  else if !synced then (.error .io, { w with failed := true })
  else
    let manifest := { w.manifest with
      integrityStatus := if w.failed then .auditFailed else status
      finalChecksum := some (K.sha256 w.streamHasher)
      closedAt := some now }
    match write with
    | .written => (.ok manifest, { w with
        directory := { w.directory with manifest := some manifest }, manifest, closed := true })
    | .kept => (.error .io, { w with manifest, failed := true })
    | .lost => (.error .io, { w with
        directory := { w.directory with manifest := none }, manifest, failed := true })

def failClosed (K : AuditCodec V) (w : NativeAuditWriter) (now : ℕ) (synced : Bool)
    (write : ManifestWrite) : Except NativeAuditError NativeAuditManifest × NativeAuditWriter :=
  { w with failed := true }.closeWithStatus K .auditFailed now synced write

def close (K : AuditCodec V) (w : NativeAuditWriter) (now : ℕ) (synced : Bool)
    (write : ManifestWrite) : Except NativeAuditError NativeAuditManifest × NativeAuditWriter :=
  w.closeWithStatus K (if w.failed then .auditFailed else .complete) now synced write

/-- An append after the close does nothing, a failed one leaves a failed writer, and any other stores
the line. -/
theorem append_cases {K : AuditCodec V} {w w' : NativeAuditWriter} {frame : NativeAuditFrame V}
    {written : Except (List UInt8) Unit} {result : Except NativeAuditError NativeAuditReference}
    (h : w.append K frame written = (result, w')) :
    (w.closed = true ∧ (∃ error, result = .error error) ∧ w' = w) ∨
    (w.closed = false ∧ (∃ error, result = .error error) ∧ ∃ frames, w' = { w with
      directory := { w.directory with frames := frames }, failed := true }) ∨
    w.closed = false ∧ w.failed = false ∧ (∃ reference, result = .ok reference) ∧ w' = { w with
      directory := { w.directory with frames := w.directory.frames ++ frame.line K }
      streamHasher := w.streamHasher ++ frame.line K
      manifest := { w.manifest with
        frameCount := w.manifest.frameCount + 1
        firstSequence := some (w.manifest.firstSequence.getD frame.sequence)
        lastSequence := some frame.sequence }
      nextSequence := w.nextSequence + 1 } := by
  unfold append at h
  split_ifs at h with hclosed hfailed
  · cases h
    exact Or.inl ⟨hclosed, ⟨_, rfl⟩, rfl⟩
  · cases h
    refine Or.inr (Or.inl ⟨by simpa using hclosed, ⟨_, rfl⟩, w.directory.frames, ?_⟩)
    rw [← hfailed]
  · have hopen : w.closed = false := by simpa using hclosed
    split at h
    next error hvalid =>
      cases h
      exact Or.inr (Or.inl ⟨hopen, ⟨_, rfl⟩, w.directory.frames, rfl⟩)
    next =>
      split at h
      next torn =>
        cases h
        exact Or.inr (Or.inl ⟨hopen, ⟨_, rfl⟩, w.directory.frames ++ torn, rfl⟩)
      next =>
        cases h
        exact Or.inr (Or.inr ⟨hopen, by simpa using hfailed, ⟨_, rfl⟩, rfl⟩)

end NativeAuditWriter

/-- Read the lines of the frames file. Blank lines are skipped. -/
def readFrames (K : AuditCodec V) :
    ℕ → List (List UInt8) → Except NativeAuditError (List (NativeAuditFrame V))
  | _, [] => .ok []
  | sequence, line :: rest =>
    if line = [newline] then readFrames K sequence rest
    else match K.fromSlice line.dropLast with
      | none => .error (.malformedFrame sequence)
      | some stored =>
        let frame := stored.mapChannel NativeAuditChannel.fromStr
        match frame.validate K sequence with
        | .error error => .error error
        | .ok _ => (readFrames K (sequence + 1) rest).map (frame :: ·)

/-- What the reader hashes. -/
def hashedLines (lines : List (List UInt8)) : List UInt8 :=
  (lines.filter (· ≠ [newline])).flatten

/-- The frames of a bundle. -/
def AuditBundle.read (K : AuditCodec V) (directory : AuditDirectory) :
    Except NativeAuditError (List (NativeAuditFrame V)) :=
  match directory.manifest with
  | none => .error .io
  | some manifest =>
    if manifest.integrityStatus ≠ .complete ∧ manifest.integrityStatus ≠ .recovered then
      .error .partialManifest
    else if manifest.auditSchemaVersion ≠ nativeAuditSchemaVersion then
      .error (.unsupportedVersion manifest.auditSchemaVersion nativeAuditSchemaVersion)
    else if directory.frames ≠ [] ∧ directory.frames.getLast? ≠ some newline then
      .error .truncatedFrame
    else
      -- the file ends with a newline, so its lines are the complete ones
      let lines := completeLines newline directory.frames
      match readFrames K 1 lines with
      | .error error => .error error
      | .ok frames =>
        if manifest.frameCount ≠ frames.length ∨
            manifest.firstSequence ≠ frames.head?.map (·.sequence) ∨
            manifest.lastSequence ≠ frames.getLast?.map (·.sequence) then
          .error (.malformedFrame (frames.length + 1))
        else
          let actual := K.sha256 (hashedLines lines)
          if manifest.finalChecksum ≠ some actual then
            .error (.streamChecksumMismatch (manifest.finalChecksum.getD "") actual)
          else .ok frames

section Reader

/-- The parts of an accepted bundle. -/
theorem AuditBundle.read_ok {K : AuditCodec V} {directory : AuditDirectory}
    {frames : List (NativeAuditFrame V)} (h : AuditBundle.read K directory = .ok frames) :
    ∃ manifest, directory.manifest = some manifest ∧
      (manifest.integrityStatus = .complete ∨ manifest.integrityStatus = .recovered) ∧
      readFrames K 1 (completeLines newline directory.frames) = .ok frames ∧
      manifest.finalChecksum =
        some (K.sha256 (hashedLines (completeLines newline directory.frames))) := by
  unfold AuditBundle.read at h
  split at h
  next => cases h
  next manifest hmanifest =>
    split_ifs at h with hstatus hversion htruncated
    dsimp only at h
    split at h
    next => cases h
    next frames' hframes =>
      split_ifs at h with hcounts hchecksum
      cases h
      refine ⟨manifest, hmanifest, ?_, hframes, by simpa using hchecksum⟩
      by_contra hneither
      rw [not_or] at hneither
      exact hstatus hneither

/-- Blank lines do not matter. -/
theorem readFrames_filter (K : AuditCodec V) (sequence : ℕ) (lines : List (List UInt8)) :
    readFrames K sequence (lines.filter (· ≠ [newline])) = readFrames K sequence lines := by
  induction lines generalizing sequence with
  | nil => rfl
  | cons line rest ih =>
    by_cases hblank : line = [newline]
    · rw [List.filter_cons_of_neg (by simpa using hblank), ih, readFrames, if_pos hblank]
    · rw [List.filter_cons_of_pos (by simpa using hblank), readFrames, readFrames,
        if_neg hblank, if_neg hblank]
      simp only [ih]

/-- The frames are numbered from the start. -/
theorem readFrames_sequence {K : AuditCodec V} {sequence : ℕ} {lines : List (List UInt8)}
    {frames : List (NativeAuditFrame V)} (h : readFrames K sequence lines = .ok frames) :
    frames.map (·.sequence) = List.range' sequence frames.length := by
  induction lines generalizing sequence frames with
  | nil =>
    cases h
    rfl
  | cons line rest ih =>
    rw [readFrames] at h
    split_ifs at h with hblank
    · exact ih h
    · split at h
      next => cases h
      next stored hstored =>
        dsimp only at h
        split at h
        next => cases h
        next hvalid =>
          cases hrest : readFrames K (sequence + 1) rest with
          | error error =>
            rw [hrest] at h
            cases h
          | ok later =>
            rw [hrest] at h
            cases h
            unfold FrameOf.validate at hvalid
            split_ifs at hvalid with hversion hsequence
            rw [List.map_cons, List.length_cons, List.range'_succ, ih hrest]
            congr 1
            simpa using hsequence

/-- Two files that a manifest accepts hold the same frames. -/
theorem AuditBundle.read_unique {K : AuditCodec V} {manifest : Option NativeAuditManifest}
    {bytes bytes' : List UInt8} {frames frames' : List (NativeAuditFrame V)}
    (h : AuditBundle.read K ⟨manifest, bytes⟩ = .ok frames)
    (h' : AuditBundle.read K ⟨manifest, bytes'⟩ = .ok frames') : frames = frames' := by
  obtain ⟨m, hm, _, hread, hsum⟩ := AuditBundle.read_ok h
  obtain ⟨m', hm', _, hread', hsum'⟩ := AuditBundle.read_ok h'
  obtain rfl : m = m' := Option.some.inj (hm.symm.trans hm')
  have hhashed := K.sha256_injective (Option.some.inj (hsum.symm.trans hsum'))
  have hform : ∀ bytes : List UInt8, ∀ line ∈ (completeLines newline bytes).filter (· ≠ [newline]),
      ∃ body, newline ∉ body ∧ line = body ++ [newline] :=
    fun bytes line hline => completeLines_form (List.mem_of_mem_filter hline)
  have hlines : (completeLines newline bytes).filter (· ≠ [newline]) =
      (completeLines newline bytes').filter (· ≠ [newline]) := by
    rw [← completeLines_flatten (hform bytes), ← completeLines_flatten (hform bytes')]
    exact congrArg _ hhashed
  rw [← readFrames_filter, hlines, readFrames_filter, hread'] at hread
  exact (Except.ok.inj hread).symm

end Reader

section Writer

/-- What a caller does with the writer, and what the file system answers. -/
inductive AuditOp (V : Type) where
  | append (frame : NativeAuditFrame V) (written : Except (List UInt8) Unit)
  | closeWithStatus (status : NativeAuditIntegrityStatus) (now : ℕ) (synced : Bool)
    (write : NativeAuditWriter.ManifestWrite)
  | close (now : ℕ) (synced : Bool) (write : NativeAuditWriter.ManifestWrite)
  | failClosed (now : ℕ) (synced : Bool) (write : NativeAuditWriter.ManifestWrite)

/-- The writer, the frames it appended, and whether an append failed before it was closed. -/
structure AuditHistory (V : Type) where
  writer : NativeAuditWriter
  appended : List (NativeAuditFrame V)
  appendFailed : Bool

namespace AuditHistory

def start (runAttemptId : ℕ) : AuditHistory V := ⟨.createIn runAttemptId, [], false⟩

def appendResult (h : AuditHistory V) (frame : NativeAuditFrame V) :
    Except NativeAuditError NativeAuditReference × NativeAuditWriter → AuditHistory V
  | (.ok _, w) => { h with writer := w, appended := h.appended ++ [frame] }
  | (.error _, w) => { h with writer := w, appendFailed := h.appendFailed || !h.writer.closed }

def step (K : AuditCodec V) (h : AuditHistory V) : AuditOp V → AuditHistory V
  | .append frame written => h.appendResult frame (h.writer.append K frame written)
  | .closeWithStatus status now synced write =>
    { h with writer := (h.writer.closeWithStatus K status now synced write).2 }
  | .close now synced write => { h with writer := (h.writer.close K now synced write).2 }
  | .failClosed now synced write => { h with writer := (h.writer.failClosed K now synced write).2 }

def run (K : AuditCodec V) (runAttemptId : ℕ) (ops : List (AuditOp V)) : AuditHistory V :=
  ops.foldl (step K) (start runAttemptId)

/-- No append failed and the file holds the frames that were appended. -/
def Faithful (K : AuditCodec V) (h : AuditHistory V) : Prop :=
  h.appendFailed = false ∧ h.writer.directory.frames = (h.appended.map (·.line K)).flatten

/-- An open writer that has not failed is faithful, and its manifest is open. A closed one stays as
it was closed, and a manifest that can be read as complete was written by a faithful writer. -/
structure Sound (K : AuditCodec V) (h : AuditHistory V) : Prop where
  frames : h.writer.closed = false → h.writer.failed = false → h.Faithful K
  opened : h.writer.closed = false → ∀ manifest, h.writer.directory.manifest = some manifest →
    manifest.integrityStatus = .opened
  closed : h.writer.closed = true → h.writer.directory.manifest = some h.writer.manifest ∧
    (h.writer.manifest.integrityStatus = .complete ∨
      h.writer.manifest.integrityStatus = .recovered → h.Faithful K)

variable {K : AuditCodec V} {h : AuditHistory V}

theorem sound_start (runAttemptId : ℕ) : Sound K (start runAttemptId) := by
  constructor
  · exact fun _ _ => ⟨rfl, rfl⟩
  · intro _ manifest hmanifest
    cases hmanifest
    rfl
  · exact fun hclosed => absurd hclosed (by simp [start, NativeAuditWriter.createIn])

theorem Sound.append (hsound : Sound K h) (frame : NativeAuditFrame V)
    (written : Except (List UInt8) Unit) : Sound K (h.step K (.append frame written)) := by
  show Sound K (h.appendResult frame (h.writer.append K frame written))
  cases hresult : h.writer.append K frame written with
  | mk result w =>
    rcases NativeAuditWriter.append_cases hresult with
      ⟨hclosed, ⟨error, rfl⟩, rfl⟩ | ⟨hopen, ⟨error, rfl⟩, frames, rfl⟩ |
        ⟨hopen, hok, ⟨reference, rfl⟩, rfl⟩
    · have hsame : h.appendResult frame (.error error, h.writer) = h := by
        simp [appendResult, hclosed]
      rwa [hsame]
    · refine ⟨fun _ hok => (Bool.false_ne_true hok.symm).elim, hsound.opened, fun hclosed => ?_⟩
      exact absurd (hopen.symm.trans hclosed) Bool.false_ne_true
    · obtain ⟨hnone, hframes⟩ := hsound.frames hopen hok
      refine ⟨fun _ _ => ⟨hnone, ?_⟩, hsound.opened, fun hclosed => ?_⟩
      · show h.writer.directory.frames ++ frame.line K =
          ((h.appended ++ [frame]).map (·.line K)).flatten
        rw [hframes, List.map_append, List.flatten_append]
        simp
      · exact absurd (hopen.symm.trans hclosed) Bool.false_ne_true

/-- A failed writer never closes as complete. -/
theorem Sound.closeWithStatus {w : NativeAuditWriter} (hsound : Sound K { h with writer := w })
    (status : NativeAuditIntegrityStatus) (now : ℕ) (synced : Bool)
    (write : NativeAuditWriter.ManifestWrite) :
    Sound K { h with writer := (w.closeWithStatus K status now synced write).2 } := by
  unfold NativeAuditWriter.closeWithStatus
  by_cases hclosed : w.closed = true
  · rw [if_pos hclosed]
    exact hsound
  · rw [if_neg hclosed]
    cases synced with
    | false => exact ⟨fun _ hok => (Bool.false_ne_true hok.symm).elim, hsound.opened,
      fun h => absurd h hclosed⟩
    | true =>
      cases write with
      | written =>
        refine ⟨fun h => (Bool.false_ne_true h.symm).elim, fun h => (Bool.false_ne_true h.symm).elim,
          fun _ => ⟨rfl, ?_⟩⟩
        intro hstatus
        refine hsound.frames (by simpa using hclosed) ?_
        show w.failed = false
        cases hfailed : w.failed with
        | false => rfl
        | true => simp [hfailed] at hstatus
      | kept => exact ⟨fun _ hok => (Bool.false_ne_true hok.symm).elim, hsound.opened,
      fun h => absurd h hclosed⟩
      | lost =>
        refine ⟨fun _ hok => (Bool.false_ne_true hok.symm).elim, ?_, fun h => absurd h hclosed⟩
        intro _ manifest hmanifest
        cases hmanifest

theorem Sound.step (hsound : Sound K h) (op : AuditOp V) : Sound K (h.step K op) := by
  cases op with
  | append frame written => exact hsound.append frame written
  | closeWithStatus status now synced write => exact hsound.closeWithStatus status now synced write
  | close now synced write => exact hsound.closeWithStatus _ now synced write
  | failClosed now synced write =>
    have hfailed : Sound K { h with writer := { h.writer with failed := true } } :=
      ⟨fun _ hok => (Bool.false_ne_true hok.symm).elim, hsound.opened, hsound.closed⟩
    exact hfailed.closeWithStatus .auditFailed now synced write

theorem sound_run (K : AuditCodec V) (runAttemptId : ℕ) (ops : List (AuditOp V)) :
    Sound K (run K runAttemptId ops) := by
  have hsteps : ∀ (ops : List (AuditOp V)) (h : AuditHistory V), Sound K h →
      Sound K (ops.foldl (AuditHistory.step K) h) := by
    intro ops
    induction ops with
    | nil => exact fun h hsound => hsound
    | cons op rest ih => exact fun h hsound => ih _ (hsound.step op)
  exact hsteps ops _ (sound_start runAttemptId)

end AuditHistory

end Writer

section RoundTrip

/-- What a frame is read back as. -/
def FrameOf.stored (K : AuditCodec V) (frame : NativeAuditFrame V) : NativeAuditFrame V :=
  { frame with
    channel := NativeAuditChannel.fromStr frame.channel.asStr
    metadata := frame.metadata.filter fun value => !K.isNull value }

/-- The frame that is read and the one that was appended. -/
structure SameFrame (K : AuditCodec V) (offered stored : NativeAuditFrame V) : Prop where
  sequence : stored.sequence = offered.sequence
  direction : stored.direction = offered.direction
  channelName : stored.channel.asStr = offered.channel.asStr
  channel : offered.channel.Proper → stored.channel = offered.channel
  contentType : stored.contentType = offered.contentType
  payload : stored.payloadBytes K = offered.payloadBytes K

theorem sameFrame_stored (K : AuditCodec V) (frame : NativeAuditFrame V) :
    SameFrame K frame (frame.stored K) where
  sequence := rfl
  direction := rfl
  channelName := NativeAuditChannel.asStr_fromStr _
  channel := NativeAuditChannel.fromStr_asStr
  contentType := rfl
  payload := rfl

theorem line_form (K : AuditCodec V) (frame : NativeAuditFrame V) :
    ∃ body, newline ∉ body ∧ frame.line K = body ++ [newline] :=
  ⟨_, K.newline_not_mem _, rfl⟩

/-- The lines of frames are read as these frames. -/
theorem readFrames_lines {K : AuditCodec V} {sequence : ℕ} {appended frames : List (NativeAuditFrame V)}
    (h : readFrames K sequence (appended.map (·.line K)) = .ok frames) :
    frames = appended.map (·.stored K) := by
  induction appended generalizing sequence frames with
  | nil =>
    cases h
    rfl
  | cons frame rest ih =>
    have hline : frame.line K ≠ [newline] := by
      intro hblank
      have hlength := congrArg List.length hblank
      simp only [FrameOf.line, List.length_append, List.length_singleton] at hlength
      have hempty : (K.toVec (frame.mapChannel NativeAuditChannel.asStr)).length = 0 := by omega
      exact K.toVec_ne_nil _ (List.length_eq_zero_iff.mp hempty)
    have hbody : (frame.line K).dropLast = K.toVec (frame.mapChannel NativeAuditChannel.asStr) :=
      List.dropLast_concat
    rw [List.map_cons, readFrames, if_neg hline, hbody, K.fromSlice_toVec] at h
    dsimp only at h
    split at h
    next => cases h
    next =>
      cases hrest : readFrames K (sequence + 1) (rest.map (·.line K)) with
      | error error =>
        rw [hrest] at h
        cases h
      | ok later =>
        rw [hrest] at h
        cases h
        rw [List.map_cons, ih hrest]
        rfl

/-- A payload reads back from the frame made of it. -/
theorem payloadBytes_fromBytes (K : AuditCodec V) (sequence timestamp : ℕ)
    (direction : NativeAuditDirection) (channel : NativeAuditChannel) (contentType : String)
    (correlationId : ℕ) (payload : List UInt8) (metadata : Option V) :
    (FrameOf.fromBytes K sequence timestamp direction channel contentType correlationId payload
      metadata).payloadBytes K = .ok payload := by
  simp [FrameOf.payloadBytes, FrameOf.fromBytes, K.decode_encode]

/-- A bundle can be read only when no append failed before the writer was closed as complete or
recovered, and it holds the frames that were appended, in order. A manifest accepts one list of
frames. -/
theorem native_audit (K : AuditCodec V) :
    (∀ (runAttemptId : ℕ) (ops : List (AuditOp V)) (frames : List (NativeAuditFrame V)),
      AuditBundle.read K (AuditHistory.run K runAttemptId ops).writer.directory = .ok frames →
      (AuditHistory.run K runAttemptId ops).appendFailed = false ∧
      (AuditHistory.run K runAttemptId ops).writer.closed = true ∧
      ((AuditHistory.run K runAttemptId ops).writer.manifest.integrityStatus = .complete ∨
        (AuditHistory.run K runAttemptId ops).writer.manifest.integrityStatus = .recovered) ∧
      List.Forall₂ (SameFrame K) (AuditHistory.run K runAttemptId ops).appended frames ∧
      frames.map (·.sequence) = List.range' 1 frames.length) ∧
    ∀ (manifest : Option NativeAuditManifest) (bytes bytes' : List UInt8)
      (frames frames' : List (NativeAuditFrame V)),
      AuditBundle.read K ⟨manifest, bytes⟩ = .ok frames →
      AuditBundle.read K ⟨manifest, bytes'⟩ = .ok frames' → frames = frames' := by
  refine ⟨?_, fun _ _ _ _ _ h h' => AuditBundle.read_unique h h'⟩
  intro runAttemptId ops frames h
  have hsound := AuditHistory.sound_run K runAttemptId ops
  generalize AuditHistory.run K runAttemptId ops = history at h hsound ⊢
  obtain ⟨manifest, hmanifest, hstatus, hread, _⟩ := AuditBundle.read_ok h
  have hclosed : history.writer.closed = true := by
    cases hcase : history.writer.closed with
    | true => rfl
    | false =>
      have hopened := hsound.opened hcase manifest hmanifest
      rw [hopened] at hstatus
      rcases hstatus with hstatus | hstatus
      · cases hstatus
      · cases hstatus
  obtain ⟨hdisk, hfaithful⟩ := hsound.closed hclosed
  obtain rfl := Option.some.inj (hmanifest.symm.trans hdisk)
  obtain ⟨hnone, hframes⟩ := hfaithful hstatus
  refine ⟨hnone, hclosed, hstatus, ?_, readFrames_sequence hread⟩
  rw [hframes, completeLines_flatten] at hread
  · rw [readFrames_lines hread, List.forall₂_map_right_iff, List.forall₂_same]
    exact fun frame _ => sameFrame_stored K frame
  · intro line hline
    obtain ⟨frame, _, rfl⟩ := List.mem_map.mp hline
    exact line_form K frame

end RoundTrip

section Fixture

instance : Encodable (FrameOf String Unit) :=
  Encodable.ofLeftInverse
    (fun f => (f.auditFormatVersion, f.sequence, f.timestamp, decide (f.direction = .input), f.channel,
      f.contentType, f.correlationId, f.payloadBase64, f.payloadChecksum, f.metadata))
    (fun (version, sequence, timestamp, input, channel, contentType, correlationId, payload, checksum,
        metadata) =>
      ⟨version, sequence, timestamp, if input then .input else .output, channel, contentType,
        correlationId, payload, checksum, metadata⟩)
    (by
      rintro ⟨_, _, _, direction, _, _, _, _, _, _⟩
      cases direction <;> rfl)

def emptyDigest : String := "e3b0c44298fc1c149afbf4c8996fb92427ae41e4649b934ca495991b7852b855"

/-- An empty line of output. -/
def outputFrame : FrameOf String Unit :=
  ⟨1, 1, 1767225600000, .output, "stdout", "text/plain", 0, "", emptyDigest, none⟩

/-- The JSON text of the frame, its members in the order of their declaration. -/
def outputLine : List UInt8 :=
  List.map UInt8.ofNat [
    123, 34, 97, 117, 100, 105, 116, 95, 102, 111, 114, 109, 97, 116, 95, 118, 101, 114, 115,
    105, 111, 110, 34, 58, 49, 44, 34, 115, 101, 113, 117, 101, 110, 99, 101, 34, 58, 49, 44,
    34, 116, 105, 109, 101, 115, 116, 97, 109, 112, 34, 58, 34, 50, 48, 50, 54, 45, 48, 49,
    45, 48, 49, 84, 48, 48, 58, 48, 48, 58, 48, 48, 90, 34, 44, 34, 100, 105, 114, 101, 99,
    116, 105, 111, 110, 34, 58, 34, 111, 117, 116, 112, 117, 116, 34, 44, 34, 99, 104, 97,
    110, 110, 101, 108, 34, 58, 34, 115, 116, 100, 111, 117, 116, 34, 44, 34, 99, 111, 110,
    116, 101, 110, 116, 95, 116, 121, 112, 101, 34, 58, 34, 116, 101, 120, 116, 47, 112, 108,
    97, 105, 110, 34, 44, 34, 99, 111, 114, 114, 101, 108, 97, 116, 105, 111, 110, 95, 105,
    100, 34, 58, 34, 48, 48, 48, 48, 48, 48, 48, 48, 45, 48, 48, 48, 48, 45, 48, 48, 48, 48,
    45, 48, 48, 48, 48, 45, 48, 48, 48, 48, 48, 48, 48, 48, 48, 48, 48, 48, 34, 44, 34, 112,
    97, 121, 108, 111, 97, 100, 95, 101, 110, 99, 111, 100, 105, 110, 103, 34, 58, 34, 98, 97,
    115, 101, 54, 52, 34, 44, 34, 112, 97, 121, 108, 111, 97, 100, 95, 98, 97, 115, 101, 54,
    52, 34, 58, 34, 34, 44, 34, 112, 97, 121, 108, 111, 97, 100, 95, 99, 104, 101, 99, 107,
    115, 117, 109, 34, 58, 34, 101, 51, 98, 48, 99, 52, 52, 50, 57, 56, 102, 99, 49, 99, 49,
    52, 57, 97, 102, 98, 102, 52, 99, 56, 57, 57, 54, 102, 98, 57, 50, 52, 50, 55, 97, 101,
    52, 49, 101, 52, 54, 52, 57, 98, 57, 51, 52, 99, 97, 52, 57, 53, 57, 57, 49, 98, 55, 56,
    53, 50, 98, 56, 53, 53, 34, 125]

def greetingDigest : String := "8f434346648f6b96df89dda901c5176b10a6d83961dd3c1ac88b59b2dc327aa4"

/-- The input `hi`. -/
def inputFrame : FrameOf String Unit :=
  ⟨1, 2, 1767225600000, .input, "stdin", "text/plain", 0, "aGk=", greetingDigest, none⟩

def inputLine : List UInt8 :=
  List.map UInt8.ofNat [
    123, 34, 97, 117, 100, 105, 116, 95, 102, 111, 114, 109, 97, 116, 95, 118, 101, 114, 115,
    105, 111, 110, 34, 58, 49, 44, 34, 115, 101, 113, 117, 101, 110, 99, 101, 34, 58, 50, 44,
    34, 116, 105, 109, 101, 115, 116, 97, 109, 112, 34, 58, 34, 50, 48, 50, 54, 45, 48, 49, 45,
    48, 49, 84, 48, 48, 58, 48, 48, 58, 48, 48, 90, 34, 44, 34, 100, 105, 114, 101, 99, 116,
    105, 111, 110, 34, 58, 34, 105, 110, 112, 117, 116, 34, 44, 34, 99, 104, 97, 110, 110, 101,
    108, 34, 58, 34, 115, 116, 100, 105, 110, 34, 44, 34, 99, 111, 110, 116, 101, 110, 116, 95,
    116, 121, 112, 101, 34, 58, 34, 116, 101, 120, 116, 47, 112, 108, 97, 105, 110, 34, 44, 34,
    99, 111, 114, 114, 101, 108, 97, 116, 105, 111, 110, 95, 105, 100, 34, 58, 34, 48, 48, 48,
    48, 48, 48, 48, 48, 45, 48, 48, 48, 48, 45, 48, 48, 48, 48, 45, 48, 48, 48, 48, 45, 48, 48,
    48, 48, 48, 48, 48, 48, 48, 48, 48, 48, 34, 44, 34, 112, 97, 121, 108, 111, 97, 100, 95,
    101, 110, 99, 111, 100, 105, 110, 103, 34, 58, 34, 98, 97, 115, 101, 54, 52, 34, 44, 34,
    112, 97, 121, 108, 111, 97, 100, 95, 98, 97, 115, 101, 54, 52, 34, 58, 34, 97, 71, 107, 61,
    34, 44, 34, 112, 97, 121, 108, 111, 97, 100, 95, 99, 104, 101, 99, 107, 115, 117, 109, 34,
    58, 34, 56, 102, 52, 51, 52, 51, 52, 54, 54, 52, 56, 102, 54, 98, 57, 54, 100, 102, 56, 57,
    100, 100, 97, 57, 48, 49, 99, 53, 49, 55, 54, 98, 49, 48, 97, 54, 100, 56, 51, 57, 54, 49,
    100, 100, 51, 99, 49, 97, 99, 56, 56, 98, 53, 57, 98, 50, 100, 99, 51, 50, 55, 97, 97, 52,
    34, 125]

def knownLines : List (FrameOf String Unit × List UInt8) :=
  [(outputFrame, outputLine), (inputFrame, inputLine)]

def knownPayloads : List (List UInt8 × String) := [([], ""), ([104, 105], "aGk=")]

/-- SHA-256 of the payloads and of the files. -/
def knownDigests : List (List UInt8 × String) :=
  [([], emptyDigest), ([104, 105], greetingDigest),
    (outputLine ++ [newline], "b203284795ef6a35b3002af738b4bc7efca219af1854a4ca91fc93e9e835989a"),
    (outputLine ++ [newline] ++ inputLine ++ [newline],
      "f4b072dea0fcbefb7ac08a7ae4c6c276aa2f74d1288a7e4210eca3b0c20b9e89")]

theorem knownLines_nodup : (knownLines.map Prod.snd).Nodup := by decide +kernel

theorem knownLines_marked : ∀ entry ∈ knownLines, entry.2.head? ≠ some 0 := by decide +kernel

theorem knownLines_line : ∀ entry ∈ knownLines, newline ∉ entry.2 ∧ entry.2 ≠ [] := by decide +kernel

theorem knownPayloads_nodup : (knownPayloads.map Prod.snd).Nodup := by decide

theorem knownPayloads_apart : ∀ entry ∈ knownPayloads, ∀ n, tally n ≠ entry.2 := by
  simp only [knownPayloads, List.forall_mem_cons, List.not_mem_nil, IsEmpty.forall_iff, implies_true,
    and_true]
  exact ⟨fun n => tally_ne (by simp), fun n => tally_ne (by simp)⟩

theorem knownDigests_nodup : (knownDigests.map Prod.snd).Nodup := by decide

theorem knownDigests_apart : ∀ entry ∈ knownDigests, ∀ n, tally n ≠ entry.2 := by
  simp only [knownDigests, List.forall_mem_cons, List.not_mem_nil, IsEmpty.forall_iff, implies_true,
    and_true]
  exact ⟨fun n => tally_ne (by simp [emptyDigest]), fun n => tally_ne (by simp [greetingDigest]),
    fun n => tally_ne (by simp), fun n => tally_ne (by simp)⟩

theorem knownLines_apart : ∀ entry ∈ knownLines, ∀ n, marks 0 n ≠ entry.2 :=
  fun entry hentry => marks_ne (knownLines_marked entry hentry)

theorem writeKnown_line (frame : FrameOf String Unit) :
    newline ∉ writeKnown knownLines (marks 0) frame ∧ writeKnown knownLines (marks 0) frame ≠ [] := by
  apply forall_writeKnown (P := fun line => newline ∉ line ∧ line ≠ []) knownLines_line
  exact fun n => by simp [newline, marks]

/-- A codec that is the usual one on the frames above and another one elsewhere. -/
def sampleCodec : AuditCodec Unit where
  isNull _ := false
  toVec := writeKnown knownLines (marks 0)
  fromSlice := readKnown knownLines markCount
  encode := writeKnown knownPayloads tally
  decode := readKnown knownPayloads tallyCount
  sha256 := writeKnown knownDigests tally
  fromSlice_toVec frame := by
    have hmetadata : (frame.metadata.filter fun _ => !false) = frame.metadata := by
      cases frame.metadata <;> rfl
    rw [hmetadata, readKnown_writeKnown knownLines_nodup knownLines_apart (markCount_marks 0)]
  newline_not_mem frame := (writeKnown_line frame).1
  toVec_ne_nil frame := (writeKnown_line frame).2
  decode_encode := readKnown_writeKnown knownPayloads_nodup knownPayloads_apart tallyCount_tally
  sha256_injective := writeKnown_injective knownDigests_nodup knownDigests_apart tallyCount_tally

/-- One frame is appended, and the writer is closed. -/
def auditOps (channel : NativeAuditChannel) : List (AuditOp Unit) :=
  [.append (outputFrame.mapChannel fun _ => channel) (.ok ()), .close 1 true .written]

/-- A channel `other "stdout"` is read as `stdout`, and an append that comes after the close fails
although the bundle can be read. -/
theorem native_audit_differs :
    ((AuditHistory.run sampleCodec 7 (auditOps (.other "stdout"))).appended.map (·.channel) =
        [.other "stdout"] ∧
      (AuditBundle.read sampleCodec
        (AuditHistory.run sampleCodec 7 (auditOps (.other "stdout"))).writer.directory).map
          (List.map (·.channel)) = .ok [.stdout]) ∧
    ((AuditHistory.run sampleCodec 7 (auditOps .stdout)).writer.append sampleCodec
        (outputFrame.mapChannel fun _ => .stdout) (.ok ())).1 = .error .closed ∧
      (AuditBundle.read sampleCodec (AuditHistory.run sampleCodec 7 (auditOps .stdout ++
        [.append (outputFrame.mapChannel fun _ => .stdout) (.ok ())])).writer.directory).map
          List.length = .ok 1 := by
  decide +kernel

/-- A frame of each direction is appended, and the writer is closed. -/
def bothOps : List (AuditOp Unit) :=
  [.append (outputFrame.mapChannel fun _ => .stdout) (.ok ()),
    .append (inputFrame.mapChannel fun _ => .stdin) (.ok ()), .close 1 true .written]

/-- Two frames are read back in order from a bundle that was closed, and no other bytes belong to its
manifest. -/
theorem native_audit_both : ∃ manifest bytes frames,
    (AuditHistory.run sampleCodec 7 bothOps).writer.directory = ⟨manifest, bytes⟩ ∧
    AuditBundle.read sampleCodec ⟨manifest, bytes⟩ = .ok frames ∧
    List.Forall₂ (SameFrame sampleCodec)
      [outputFrame.mapChannel fun _ => .stdout, inputFrame.mapChannel fun _ => .stdin] frames ∧
    frames.map (·.sequence) = [1, 2] ∧
    ∀ bytes' frames', AuditBundle.read sampleCodec ⟨manifest, bytes'⟩ = .ok frames' →
      frames = frames' := by
  have happended : (AuditHistory.run sampleCodec 7 bothOps).appended =
      [outputFrame.mapChannel fun _ => .stdout, inputFrame.mapChannel fun _ => .stdin] := by
    decide +kernel
  have hread : AuditBundle.read sampleCodec
      (AuditHistory.run sampleCodec 7 bothOps).writer.directory =
        .ok [outputFrame.mapChannel fun _ => .stdout, inputFrame.mapChannel fun _ => .stdin] := by
    decide +kernel
  obtain ⟨hwritten, hunique⟩ := native_audit sampleCodec
  obtain ⟨_, _, _, hframes, hsequence⟩ := hwritten 7 bothOps _ hread
  rw [happended] at hframes
  exact ⟨_, _, _, rfl, hread, hframes, hsequence, fun bytes' frames' h' =>
    hunique _ _ bytes' _ frames' hread h'⟩

end Fixture

end VibeKanban.Agent
