import VibeKanban.Git.Format
import VibeKanban.Lib.Lines
import Mathlib.Data.List.DropRight
import Mathlib.Data.List.Forall2

/-! The readers of git's output, and when they give back what git printed. -/
namespace VibeKanban.Git
open Lib

inductive ChangeType where
  | added | modified | deleted | renamed | copied | typeChanged | unmerged
  | unknown (letter : Char)
  deriving DecidableEq, Repr

structure StatusDiffEntry where
  change : ChangeType
  path : List Char
  oldPath : Option (List Char)
  deriving DecidableEq, Repr

def changeType (letter : Char) : ChangeType :=
  match letter with
  | 'A' => .added
  | 'M' => .modified
  | 'D' => .deleted
  | 'R' => .renamed
  | 'C' => .copied
  | 'T' => .typeChanged
  | 'U' => .unmerged
  | other => .unknown other

/-- The entry of one line. -/
def parseLine (line : List Char) : Option StatusDiffEntry :=
  let line := line.rdropWhile isWhitespace
  if line.isEmpty then none
  else match line.splitOn '\t' with
  | [] => none
  | code :: parts =>
    let change := changeType (code.head?.getD '?')
    if change = .renamed ∨ change = .copied then
      match parts with
      | old :: new :: _ => some ⟨change, new, some old⟩
      | _ => none
    else
      match parts with
      | path :: _ => some ⟨change, path, none⟩
      | [] => none

def parseNameStatus (output : List Char) : List StatusDiffEntry := (lines output).filterMap parseLine

section Printed

/-- The changes that concern one path. -/
inductive PathStatus where
  | added | modified | deleted | typeChanged | unmerged | unknown
  deriving DecidableEq, Repr

/-- A change as git knows it. -/
inductive GitChange where
  | single (status : PathStatus) (path : FileName)
  | pair (copied : Bool) (score : Fin 101) (old path : FileName)

def PathStatus.letter : PathStatus → Char
  | .added => 'A'
  | .modified => 'M'
  | .deleted => 'D'
  | .typeChanged => 'T'
  | .unmerged => 'U'
  | .unknown => 'X'

namespace GitChange

def code : GitChange → List Char
  | .single status _ => [status.letter]
  | .pair copied score _ _ =>
    [if copied then 'C' else 'R', Char.ofNat (48 + score / 100), Char.ofNat (48 + score / 10 % 10),
      Char.ofNat (48 + score % 10)]

def path : GitChange → FileName
  | .single _ path => path
  | .pair _ _ _ path => path

def old : GitChange → Option FileName
  | .single _ _ => none
  | .pair _ _ old _ => some old

def change : GitChange → ChangeType
  | .single .added _ => .added
  | .single .modified _ => .modified
  | .single .deleted _ => .deleted
  | .single .typeChanged _ => .typeChanged
  | .single .unmerged _ => .unmerged
  | .single .unknown _ => .unknown 'X'
  | .pair copied _ _ _ => if copied then .copied else .renamed

/-- The line of `diff --name-status`. -/
def line (change : GitChange) : List UInt8 :=
  encodeUtf8 change.code ++
    change.old.elim [] (fun old => encodeUtf8 ['\t'] ++ quoteCStyle old.bytes) ++
    encodeUtf8 ['\t'] ++ quoteCStyle change.path.bytes ++ encodeUtf8 ['\n']

end GitChange

def nameStatusOutput (changes : List GitChange) : List UInt8 := changes.flatMap GitChange.line

/-- An entry is the change, with its exact paths. -/
def Exact (entry : StatusDiffEntry) (change : GitChange) : Prop :=
  entry.change = change.change ∧ encodeUtf8 entry.path = change.path.bytes ∧
    entry.oldPath.map encodeUtf8 = change.old.map FileName.bytes

/-- A name that git prints as it is and that is UTF-8. -/
def Plain (name : FileName) (text : List Char) : Prop :=
  encodeUtf8 text = name.bytes ∧ ∀ c ∈ text, mustQuote c.toNat = false

/-- The names of a change are printed as they are, and the last one does not end in white space. -/
def PlainNames (change : GitChange) : Prop :=
  (∃ text, Plain change.path text ∧ text.rdropWhile isWhitespace = text) ∧
    ∀ old ∈ change.old, ∃ text, Plain old text

end Printed

section Read
variable {change : GitChange} {path old : List Char}

/-- The line of a change whose names are text. -/
def textLine (change : GitChange) (old path : List Char) : List Char :=
  change.code ++ (if change.old.isSome then '\t' :: quoteText old else []) ++ '\t' :: quoteText path

theorem code_spec (change : GitChange) :
    (∀ c ∈ change.code, c ≠ '\t' ∧ c ≠ '\n' ∧ isWhitespace c = false) ∧ change.code ≠ [] ∧
      changeType (change.code.head?.getD '?') = change.change ∧
      (change.change = .renamed ∨ change.change = .copied ↔ change.old.isSome = true) := by
  cases change with
  | single status path =>
    cases status <;> simp [GitChange.code, PathStatus.letter, changeType, GitChange.change, GitChange.old,
      isWhitespace]
  | pair copied score old path =>
    have hdigits : ∀ score : Fin 101, ([Char.ofNat (48 + score / 100),
        Char.ofNat (48 + score / 10 % 10), Char.ofNat (48 + score % 10)].all fun c =>
        c ≠ '\t' ∧ c ≠ '\n' ∧ isWhitespace c = false) = true := by decide
    refine ⟨?_, by simp [GitChange.code], ?_, ?_⟩
    · intro c hc
      rcases List.mem_cons.mp hc with rfl | hdigit
      · cases copied <;> decide
      · exact of_decide_eq_true (List.all_eq_true.mp (hdigits score) c hdigit)
    · cases copied <;> simp [GitChange.code, changeType, GitChange.change]
    · cases copied <;> simp [GitChange.change, GitChange.old]

theorem quoteText_no_tab (text : List Char) : '\t' ∉ quoteText text := by
  intro h
  have hvisible := quoteText_visible h
  exact absurd hvisible (by decide)

theorem textLine_no_newline (change : GitChange) (old path : List Char) :
    '\n' ∉ textLine change old path := by
  have hquoted : ∀ text, '\n' ∉ quoteText text := fun text h =>
    absurd (quoteText_visible h) (by decide)
  have hcode : '\n' ∉ change.code := fun h => ((code_spec change).1 _ h).2.1 rfl
  unfold textLine
  split <;> simp [hcode, hquoted]

theorem rdropWhile_append {α : Type*} (p : α → Bool) (a b : List α) :
    (a ++ b).rdropWhile p = if b.rdropWhile p = [] then a.rdropWhile p else a ++ b.rdropWhile p := by
  simp only [List.rdropWhile, List.reverse_append, List.dropWhile_append, List.isEmpty_iff,
    List.reverse_eq_nil_iff]
  split
  · rfl
  · rw [List.reverse_append, List.reverse_reverse]

theorem trimmed_code (change : GitChange) : change.code.rdropWhile isWhitespace = change.code := by
  rw [List.rdropWhile_eq_self_iff]
  intro hne
  have hlast := ((code_spec change).1 _ (List.getLast_mem hne)).2.2
  simpa using hlast

/-- A line gives its change back with the first name quoted and the last one quoted and trimmed, unless
nothing is left of that one. -/
theorem parseLine_textLine (change : GitChange) (old path : List Char) :
    parseLine (textLine change old path) =
      if (quoteText path).rdropWhile isWhitespace = [] then none
      else some ⟨change.change, (quoteText path).rdropWhile isWhitespace,
        if change.old.isSome then some (quoteText old) else none⟩ := by
  obtain ⟨hcode, hne, htype, hpair⟩ := code_spec change
  have htab : '\t' ∉ change.code := fun h => (hcode _ h).1 rfl
  have hblank : ['\t'].rdropWhile isWhitespace = [] := by decide
  have hname : ∀ text, '\t' ∉ (quoteText text).rdropWhile isWhitespace := fun text h =>
    quoteText_no_tab text ((List.rdropWhile_prefix _ _).subset h)
  have hsplit : textLine change old path =
      (change.code ++ (if change.old.isSome then '\t' :: quoteText old else []) ++ ['\t']) ++ quoteText path := by
    simp [textLine]
  unfold parseLine
  rw [hsplit, rdropWhile_append]
  by_cases hempty : (quoteText path).rdropWhile isWhitespace = []
  · rw [if_pos hempty, if_pos hempty, rdropWhile_append, if_pos hblank]
    cases hold : change.old.isSome with
    | false =>
      simp only [Bool.false_eq_true, if_false, List.append_nil, trimmed_code, List.isEmpty_iff, hne,
        List.splitOn_eq_singleton htab, htype, hpair, hold]
    | true =>
      rw [if_pos rfl, ← List.singleton_append, rdropWhile_append, rdropWhile_append, hblank]
      by_cases hoempty : (quoteText old).rdropWhile isWhitespace = []
      · simp only [hoempty, if_true, trimmed_code, List.isEmpty_iff, hne, if_false,
          List.splitOn_eq_singleton htab, htype, hpair, hold]
      · have hline : change.code ++ '\t' :: (quoteText old).rdropWhile isWhitespace ≠ [] := by simp
        simp only [hoempty, if_false, List.singleton_append, reduceCtorEq, List.isEmpty_iff, hline,
          List.splitOn_append_cons_self_of_not_mem htab, List.splitOn_eq_singleton (hname old), htype, hpair,
          hold, if_true]
  · rw [if_neg hempty, if_neg hempty]
    cases hold : change.old.isSome with
    | false =>
      have hline : change.code ++ '\t' :: (quoteText path).rdropWhile isWhitespace ≠ [] := by simp
      simp only [Bool.false_eq_true, if_false, List.append_nil, List.append_assoc, List.singleton_append,
        List.isEmpty_iff, hline, List.splitOn_append_cons_self_of_not_mem htab,
        List.splitOn_eq_singleton (hname path), htype, hpair, hold]
    | true =>
      have hline : change.code ++
          '\t' :: (quoteText old ++ '\t' :: (quoteText path).rdropWhile isWhitespace) ≠ [] := by simp
      simp only [if_true, List.append_assoc, List.cons_append, List.nil_append, List.isEmpty_iff, hline,
        if_false, List.splitOn_append_cons_self_of_not_mem htab,
        List.splitOn_append_cons_self_of_not_mem (quoteText_no_tab old),
        List.splitOn_eq_singleton (hname path), htype, hpair, hold]

end Read

/-- A name read as text. -/
def FileName.text (name : FileName) : List Char := fromUtf8Lossy name.bytes

theorem FileName.text_of_encode {name : FileName} {text : List Char} (h : encodeUtf8 text = name.bytes) :
    name.text = text := by
  rw [FileName.text, ← h, fromUtf8Lossy_encode]

/-- The names of a change are UTF-8. -/
def TextNames (change : GitChange) : Prop :=
  encodeUtf8 change.path.text = change.path.bytes ∧
    ∀ old ∈ change.old, encodeUtf8 old.text = old.bytes

def printedLine (change : GitChange) : List Char :=
  textLine change (change.old.elim [] FileName.text) change.path.text

section Parse
variable {change : GitChange} {changes : List GitChange}

theorem line_eq (h : TextNames change) : change.line = encodeUtf8 (printedLine change ++ ['\n']) := by
  unfold GitChange.line printedLine textLine
  rw [← h.1, quoteCStyle_encode]
  cases hold : change.old with
  | none => simp [List.append_assoc]
  | some old =>
    have hname := h.2 old hold
    simp only [Option.elim_some, ← hname, quoteCStyle_encode, Option.isSome_some, if_true,
      encodeUtf8_append, encodeUtf8_cons, encodeUtf8_nil, List.append_assoc, List.append_nil]

theorem printedLine_clean (change : GitChange) :
    '\n' ∉ printedLine change ∧ (printedLine change).getLast? ≠ some '\r' := by
  refine ⟨textLine_no_newline _ _ _, fun hlast => ?_⟩
  have hmem := List.mem_of_getLast? hlast
  have hquoted : ∀ text, '\r' ∉ quoteText text := fun text h => absurd (quoteText_visible h) (by decide)
  have hcode : '\r' ∉ change.code := fun h => absurd ((code_spec change).1 _ h).2.2 (by decide)
  unfold printedLine textLine at hmem
  split at hmem <;> simp [hcode, hquoted] at hmem

theorem lines_printed (changes : List GitChange) :
    lines (changes.flatMap fun change => printedLine change ++ ['\n']) = changes.map printedLine := by
  induction changes with
  | nil => rfl
  | cons change rest ih =>
    have hclean := printedLine_clean change
    unfold lines at ih ⊢
    have htext : lineText (printedLine change ++ ['\n']) = printedLine change := by
      rw [lineText_line, if_neg hclean.2]
    rw [List.flatMap_cons, List.append_assoc, List.singleton_append, splitInclusive_line hclean.1,
      List.map_cons, ih, htext, List.map_cons]

theorem parse_printed (h : ∀ change ∈ changes, TextNames change) :
    parseNameStatus (fromUtf8Lossy (nameStatusOutput changes)) =
      changes.filterMap fun change => parseLine (printedLine change) := by
  have houtput : nameStatusOutput changes =
      encodeUtf8 (changes.flatMap fun change => printedLine change ++ ['\n']) := by
    induction changes with
    | nil => rfl
    | cons change rest ih =>
      have hrest := ih fun other hother => h other (List.mem_cons_of_mem _ hother)
      unfold nameStatusOutput at hrest ⊢
      rw [List.flatMap_cons, List.flatMap_cons, encodeUtf8_append, hrest, line_eq (h change List.mem_cons_self)]
  rw [houtput, fromUtf8Lossy_encode, parseNameStatus, lines_printed, List.filterMap_map]
  rfl

theorem forall₂_filterMap {α β : Type*} {R : β → α → Prop} {f : α → Option β} {l : List α} :
    List.Forall₂ R (l.filterMap f) l ↔ ∀ a ∈ l, ∃ b, f a = some b ∧ R b a := by
  induction l with
  | nil => simp
  | cons a rest ih =>
    cases hf : f a with
    | none =>
      constructor
      · intro h
        have hlength := h.length_eq
        have hle := List.length_filterMap_le f rest
        rw [List.filterMap_cons_none hf, List.length_cons] at hlength
        omega
      · intro h
        obtain ⟨b, hb, -⟩ := h a List.mem_cons_self
        rw [hf] at hb
        cases hb
    | some b =>
      rw [List.filterMap_cons_some hf, List.forall₂_cons, ih, List.forall_mem_cons]
      simp [hf]

theorem exists_of_forall₂ {α β : Type*} {R : α → β → Prop} {l : List α} {l' : List β}
    (h : List.Forall₂ R l l') {b : β} (hb : b ∈ l') : ∃ a ∈ l, R a b := by
  induction h with
  | nil => cases hb
  | cons hfirst _ ih =>
    rcases List.mem_cons.mp hb with rfl | hrest
    · exact ⟨_, List.mem_cons_self, hfirst⟩
    · obtain ⟨a, ha, hrelated⟩ := ih hrest
      exact ⟨a, List.mem_cons_of_mem _ ha, hrelated⟩

/-- The line of a change with text names gives it back when its names are plain. -/
theorem parseLine_exact (h : TextNames change) :
    (∃ entry, parseLine (printedLine change) = some entry ∧ Exact entry change) ↔ PlainNames change := by
  unfold printedLine
  rw [parseLine_textLine]
  have hquote : ∀ text, (∀ c ∈ text, mustQuote c.toNat = false) ↔ quoteText text = text := by
    intro text
    constructor
    · exact quoteText_plain
    · intro hsame
      by_contra hquoted
      obtain ⟨_, -, hlonger⟩ := quoteText_quoted hquoted
      rw [hsame] at hlonger
      omega
  constructor
  · rintro ⟨entry, hentry, hchange, hpath, hold⟩
    split at hentry
    · cases hentry
    · obtain rfl := Option.some.inj hentry
      have htrim : (quoteText change.path.text).rdropWhile isWhitespace = change.path.text :=
        encodeUtf8_injective (hpath.trans h.1.symm)
      have hpathPlain : ∀ c ∈ change.path.text, mustQuote c.toNat = false := by
        by_contra hquoted
        obtain ⟨body, hbody, hlonger⟩ := quoteText_quoted hquoted
        have hkept : (quoteText change.path.text).rdropWhile isWhitespace = quoteText change.path.text := by
          rw [hbody, List.rdropWhile_concat_neg]
          decide
        rw [hkept] at htrim
        rw [htrim] at hlonger
        omega
      rw [quoteText_plain hpathPlain] at htrim
      refine ⟨⟨change.path.text, ⟨h.1, hpathPlain⟩, htrim⟩, fun old hmem => ⟨old.text, h.2 old hmem, ?_⟩⟩
      have hsome : change.old = some old := hmem
      rw [hquote]
      apply encodeUtf8_injective
      rw [h.2 old hmem]
      simpa [hsome] using hold
  · rintro ⟨⟨text, ⟨htext, hplain⟩, htrim⟩, hold⟩
    rw [FileName.text_of_encode htext, quoteText_plain hplain, htrim]
    have hne : text ≠ [] := by
      rintro rfl
      exact change.path.ne_nil htext.symm
    rw [if_neg hne]
    refine ⟨_, rfl, rfl, htext, ?_⟩
    cases hsome : change.old with
    | none => rfl
    | some old =>
      obtain ⟨oldText, holdText, holdPlain⟩ := hold old hsome
      simp [FileName.text_of_encode holdText, quoteText_plain holdPlain, holdText]

/-- The parser gives every list of changes back exactly when all names are plain. -/
theorem parseNameStatus_exact :
    List.Forall₂ Exact (parseNameStatus (fromUtf8Lossy (nameStatusOutput changes))) changes ↔
      ∀ change ∈ changes, PlainNames change := by
  have hgiven : (∀ change ∈ changes, TextNames change) →
      (List.Forall₂ Exact (parseNameStatus (fromUtf8Lossy (nameStatusOutput changes))) changes ↔
        ∀ change ∈ changes, PlainNames change) := by
    intro h
    rw [parse_printed h, forall₂_filterMap]
    exact forall₂_congr fun change hchange => parseLine_exact (h change hchange)
  constructor
  · intro h
    refine (hgiven fun change hchange => ?_).mp h
    obtain ⟨entry, -, -, hpath, hold⟩ := exists_of_forall₂ h hchange
    refine ⟨by rw [FileName.text_of_encode hpath, hpath], fun old hmem => ?_⟩
    have hsome : change.old = some old := hmem
    rw [hsome] at hold
    obtain ⟨oldText, -, holdText⟩ := Option.map_eq_some_iff.mp hold
    rw [FileName.text_of_encode holdText, holdText]
  · intro h
    refine (hgiven fun change hchange => ?_).mpr h
    obtain ⟨⟨text, ⟨htext, -⟩, -⟩, hold⟩ := h change hchange
    refine ⟨by rw [FileName.text_of_encode htext, htext], fun old hmem => ?_⟩
    obtain ⟨oldText, holdText, -⟩ := hold old hmem
    rw [FileName.text_of_encode holdText, holdText]

end Parse

end VibeKanban.Git
