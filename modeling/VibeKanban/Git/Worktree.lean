import VibeKanban.Git.Output

/-! The reader of the worktree status, and both readers together. -/
namespace VibeKanban.Git
open Lib

structure StatusEntry where
  staged : Char
  unstaged : Char
  path : List UInt8
  origPath : Option (List UInt8)
  isUntracked : Bool
  deriving DecidableEq

structure WorktreeStatus where
  uncommittedTracked : ℕ
  untracked : ℕ
  entries : List StatusEntry
  deriving DecidableEq

def isMove (letter : Char) : Bool := letter == 'R' || letter == 'C'

namespace WorktreeStatus

def push (status : WorktreeStatus) (entry : StatusEntry) : WorktreeStatus where
  uncommittedTracked :=
    if !entry.isUntracked && (entry.staged ≠ ' ' || entry.unstaged ≠ ' ') then status.uncommittedTracked + 1
    else status.uncommittedTracked
  untracked := if entry.isUntracked then status.untracked + 1 else status.untracked
  entries := status.entries ++ [entry]

end WorktreeStatus

/-- The original path of a renamed or copied one is the next part, and the parts behind it. -/
def takeOrigPath (moved : Bool) (parts : List (List UInt8)) : Option (List UInt8) × List (List UInt8) :=
  if moved then
    match parts with
    | [] => (none, [])
    | old :: rest => (if old.isEmpty then none else some old, rest)
  else (none, parts)

theorem takeOrigPath_length (moved : Bool) (parts : List (List UInt8)) :
    (takeOrigPath moved parts).2.length ≤ parts.length := by
  unfold takeOrigPath
  split
  · cases parts <;> simp
  · exact le_rfl

/-- The loop over the parts between the NULs. -/
def readParts (status : WorktreeStatus) : List (List UInt8) → WorktreeStatus
  | [] => status
  | (x :: y :: _ :: first :: path) :: parts =>
    let staged := Char.ofNat x.toNat
    let unstaged := Char.ofNat y.toNat
    let orig := takeOrigPath (isMove staged || isMove unstaged) parts
    readParts (status.push
      { staged, unstaged, path := first :: path, origPath := orig.1,
        isUntracked := staged == '?' && unstaged == '?' }) orig.2
  | _ :: parts => readParts status parts
termination_by parts => parts.length
decreasing_by
  · have hlength := takeOrigPath_length
      (isMove (Char.ofNat x.toNat) || isMove (Char.ofNat y.toNat)) parts
    simp only [List.length_cons]
    omega
  · simp

def worktreeStatus (output : List UInt8) : WorktreeStatus := readParts ⟨0, 0, []⟩ (output.splitOn 0)

section Printed

/-- The letters of one column of the status. -/
inductive StatusLetter where
  | unmodified | modified | typeChanged | added | deleted | unmerged | renamed | copied
  deriving DecidableEq, Repr

def StatusLetter.char : StatusLetter → Char
  | .unmodified => ' '
  | .modified => 'M'
  | .typeChanged => 'T'
  | .added => 'A'
  | .deleted => 'D'
  | .unmerged => 'U'
  | .renamed => 'R'
  | .copied => 'C'

def StatusLetter.moves (letter : StatusLetter) : Bool := letter == .renamed || letter == .copied

/-- An entry as git knows it: a changed path, with its original one if it moved, or an untracked path. -/
inductive GitStatus where
  | tracked (staged unstaged : StatusLetter) (path : FileName)
    (changed : staged ≠ .unmodified ∨ unstaged ≠ .unmodified)
    (stays : staged.moves = false ∧ unstaged.moves = false)
  | moved (staged unstaged : StatusLetter) (path orig : FileName)
    (moves : staged.moves = true ∨ unstaged.moves = true)
  | untracked (path : FileName)

namespace GitStatus

def letters : GitStatus → Char × Char
  | .tracked staged unstaged _ _ _ => (staged.char, unstaged.char)
  | .moved staged unstaged _ _ _ => (staged.char, unstaged.char)
  | .untracked _ => ('?', '?')

def path : GitStatus → FileName
  | .tracked _ _ path _ _ => path
  | .moved _ _ path _ _ => path
  | .untracked path => path

def orig : GitStatus → Option FileName
  | .moved _ _ _ orig _ => some orig
  | _ => none

def isUntracked : GitStatus → Bool
  | .untracked _ => true
  | _ => false

/-- The fields of the entry, each closed by a NUL. -/
def fields (status : GitStatus) : List UInt8 :=
  encodeUtf8 [status.letters.1, status.letters.2, ' '] ++ status.path.bytes ++ [0] ++
    status.orig.elim [] fun orig => orig.bytes ++ [0]

def entry (status : GitStatus) : StatusEntry where
  staged := status.letters.1
  unstaged := status.letters.2
  path := status.path.bytes
  origPath := status.orig.map FileName.bytes
  isUntracked := status.isUntracked

end GitStatus

def porcelainOutput (statuses : List GitStatus) : List UInt8 := statuses.flatMap GitStatus.fields

/-- What the reader has to find. -/
def statusOf (statuses : List GitStatus) : WorktreeStatus where
  uncommittedTracked := statuses.countP fun status => !status.isUntracked
  untracked := statuses.countP GitStatus.isUntracked
  entries := statuses.map GitStatus.entry

end Printed

section Read

theorem letter_byte : ∀ letter : StatusLetter, String.utf8EncodeChar letter.char = [letter.char.val.toUInt8] ∧
    Char.ofNat letter.char.val.toUInt8.toNat = letter.char ∧ letter.char.val.toUInt8 ≠ 0 ∧
    isMove letter.char = letter.moves ∧ letter.char ≠ '?' ∧
    (letter.char = ' ' ↔ letter = .unmodified) := by
  intro letter
  cases letter <;> decide

/-- What an entry's letters say. -/
theorem letters_spec (status : GitStatus) :
    ∃ x y : UInt8, encodeUtf8 [status.letters.1, status.letters.2, ' '] = [x, y, 0x20] ∧ x ≠ 0 ∧ y ≠ 0 ∧
      Char.ofNat x.toNat = status.letters.1 ∧ Char.ofNat y.toNat = status.letters.2 ∧
      (isMove status.letters.1 || isMove status.letters.2) = status.orig.isSome ∧
      (status.letters.1 == '?' && status.letters.2 == '?') = status.isUntracked ∧
      (status.isUntracked = false → status.letters.1 ≠ ' ' ∨ status.letters.2 ≠ ' ') := by
  cases status with
  | untracked path =>
    have hmarks : encodeUtf8 ['?', '?', ' '] = [0x3f, 0x3f, 0x20] := by decide
    exact ⟨0x3f, 0x3f, hmarks, by decide, by decide, rfl, rfl, rfl, rfl, by simp [GitStatus.isUntracked]⟩
  | tracked staged unstaged path changed stays =>
    obtain ⟨hx, hxc, hx0, hxm, hxq, hxs⟩ := letter_byte staged
    obtain ⟨hy, hyc, hy0, hym, hyq, hys⟩ := letter_byte unstaged
    refine ⟨_, _, ?_, hx0, hy0, hxc, hyc, ?_, ?_, ?_⟩
    · show encodeUtf8 [staged.char, unstaged.char, ' '] = _
      rw [encodeUtf8_cons, encodeUtf8_cons, hx, hy]
      rfl
    · show (isMove staged.char || isMove unstaged.char) = false
      rw [hxm, hym, stays.1, stays.2]
      rfl
    · simp [GitStatus.letters, GitStatus.isUntracked, hxq]
    · intro _
      rw [GitStatus.letters, Ne, Ne, hxs, hys]
      exact changed
  | moved staged unstaged path orig moves =>
    obtain ⟨hx, hxc, hx0, hxm, hxq, hxs⟩ := letter_byte staged
    obtain ⟨hy, hyc, hy0, hym, hyq, hys⟩ := letter_byte unstaged
    refine ⟨_, _, ?_, hx0, hy0, hxc, hyc, ?_, ?_, ?_⟩
    · show encodeUtf8 [staged.char, unstaged.char, ' '] = _
      rw [encodeUtf8_cons, encodeUtf8_cons, hx, hy]
      rfl
    · show (isMove staged.char || isMove unstaged.char) = true
      rw [hxm, hym, Bool.or_eq_true]
      exact moves
    · simp [GitStatus.letters, GitStatus.isUntracked, hxq]
    · intro _
      rw [GitStatus.letters, Ne, Ne, hxs, hys]
      rcases moves with h | h
      · left
        rintro rfl
        cases h
      · right
        rintro rfl
        cases h

/-- The parts of an entry are read as the entry. -/
theorem readParts_fields (seen : WorktreeStatus) (status : GitStatus) (rest : List UInt8) :
    readParts seen ((status.fields ++ rest).splitOn 0) =
      readParts (seen.push status.entry) (rest.splitOn 0) := by
  obtain ⟨x, y, hletters, hx, hy, hxc, hyc, hmoves, huntracked, -⟩ := letters_spec status
  have hpath : (0 : UInt8) ∉ x :: y :: 0x20 :: status.path.bytes := by
    simp [hx.symm, hy.symm, status.path.no_nul]
  obtain ⟨first, path, hbytes⟩ := List.exists_cons_of_ne_nil status.path.ne_nil
  have hfields : status.fields ++ rest = (x :: y :: 0x20 :: status.path.bytes) ++
      0 :: ((status.orig.elim [] fun orig => orig.bytes ++ [0]) ++ rest) := by
    unfold GitStatus.fields
    rw [hletters]
    simp
  rw [hfields, List.splitOn_append_cons_self_of_not_mem hpath, hbytes, readParts, hxc, hyc, hmoves, huntracked]
  unfold GitStatus.entry
  cases horig : status.orig with
  | none => simp [takeOrigPath, hbytes]
  | some orig =>
    have hnul : (0 : UInt8) ∉ orig.bytes := orig.no_nul
    have hsplit : (orig.bytes ++ 0 :: rest).splitOn 0 = orig.bytes :: rest.splitOn 0 :=
      List.splitOn_append_cons_self_of_not_mem hnul rest
    simp [takeOrigPath, hsplit, hbytes, orig.ne_nil]

/-- Behind a status that has been read, the entries of the output are added to it. -/
theorem readParts_output (seen : WorktreeStatus) (statuses : List GitStatus) :
    readParts seen ((porcelainOutput statuses).splitOn 0) =
      { uncommittedTracked := seen.uncommittedTracked + (statusOf statuses).uncommittedTracked
        untracked := seen.untracked + (statusOf statuses).untracked
        entries := seen.entries ++ (statusOf statuses).entries } := by
  induction statuses generalizing seen with
  | nil =>
    have hempty : ([] : List UInt8).splitOn 0 = [[]] := rfl
    simp [porcelainOutput, hempty, readParts, statusOf]
  | cons status rest ih =>
    obtain ⟨-, -, -, -, -, -, -, -, -, hchanged⟩ := letters_spec status
    unfold porcelainOutput at ih ⊢
    rw [List.flatMap_cons, readParts_fields, ih]
    unfold WorktreeStatus.push statusOf
    cases huntracked : status.isUntracked with
    | true => simp [GitStatus.entry, huntracked, Nat.add_assoc, Nat.add_comm 1]
    | false =>
      have hcounted := hchanged huntracked
      simp [GitStatus.entry, huntracked, hcounted, Nat.add_assoc, Nat.add_comm 1]

theorem worktreeStatus_exact (statuses : List GitStatus) :
    worktreeStatus (porcelainOutput statuses) = statusOf statuses := by
  unfold worktreeStatus
  rw [readParts_output]
  simp

end Read

/-- Both readers give back what git printed: the changes with their exact names, and the status. -/
def Decoded (changes : List GitChange) (statuses : List GitStatus) : Prop :=
  List.Forall₂ Exact (parseNameStatus (fromUtf8Lossy (nameStatusOutput changes))) changes ∧
    worktreeStatus (porcelainOutput statuses) = statusOf statuses

/-- Git's output is decoded exactly when the names of all changes are printed as they are. -/
theorem decoded_iff (changes : List GitChange) (statuses : List GitStatus) :
    Decoded changes statuses ↔ ∀ change ∈ changes, PlainNames change := by
  unfold Decoded
  rw [parseNameStatus_exact]
  exact and_iff_left (worktreeStatus_exact statuses)

/-- A name with a quotation mark comes back in quotation marks. -/
theorem quoted_name_kept :
    let name : FileName := ⟨encodeUtf8 ['a', '"', 'b'], by decide, by decide⟩
    parseNameStatus (fromUtf8Lossy (nameStatusOutput [.single .added name])) =
      [⟨.added, ['"', 'a', '\\', '"', 'b', '"'], none⟩] ∧ ¬ Decoded [.single .added name] [] := by
  intro name
  have htext : name.text = ['a', '"', 'b'] := FileName.text_of_encode rfl
  have hparsed : parseNameStatus (fromUtf8Lossy (nameStatusOutput [.single .added name])) =
      [⟨.added, ['"', 'a', '\\', '"', 'b', '"'], none⟩] := by
    rw [parse_printed]
    · have hline : printedLine (.single .added name) = textLine (.single .added name) [] ['a', '"', 'b'] := by
        rw [printedLine, GitChange.path, htext]
        rfl
      rw [List.filterMap_cons, hline, parseLine_textLine]
      decide
    · intro change hchange
      obtain rfl := List.mem_singleton.mp hchange
      exact ⟨by rw [GitChange.path, htext], fun old hold => nomatch hold⟩
  refine ⟨hparsed, fun hdecoded => ?_⟩
  have hexact := hdecoded.1
  rw [hparsed, List.forall₂_cons] at hexact
  exact absurd (encodeUtf8_injective hexact.1.2.1) (by decide)

end VibeKanban.Git
