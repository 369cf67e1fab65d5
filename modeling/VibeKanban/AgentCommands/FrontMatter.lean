import Mathlib.Data.List.Basic
import VibeKanban.AgentCommands.Markdown

/-! Front matter as YAML: what a block mapping written stretch by stretch reads as, and what an edit
of its lines does to the fields. -/
namespace VibeKanban.AgentCommands
open Lib Lib.JsonText

/-- The line breaks of YAML. -/
def isBreak (c : Char) : Bool :=
  c == '\n' || c == '\r' || c.toNat == 0x85 || c.toNat == 0x2028 || c.toNat == 0x2029

/-- A character that stands for itself in YAML text of one line. -/
def isLiteral (c : Char) : Bool :=
  0x20 ≤ c.toNat && !isBreak c && !(0x7f ≤ c.toNat && c.toNat ≤ 0x9f) && c.toNat != 0xfeff &&
    c.toNat != 0xfffe && c.toNat != 0xffff

def indicators : List Char :=
  ['-', '?', ':', ',', '[', ']', '\x7b', '\x7d', '#', '&', '*', '!', '|', '>', '\x27', '"', '%', '@',
    '\x60']

/-- A character that a key of a block mapping starts with: one of a plain scalar, or a quote. -/
def startsKey (c : Char) : Bool :=
  c == '"' || c == '\x27' || (isLiteral c && !isWhitespace c && !indicators.contains c)

/-- A key that YAML reads as its own text: a word of small letters and hyphens. -/
def PlainKey (key : String) : Prop :=
  (∃ c ∈ key.toList.head?, c.isLower = true) ∧ (∀ c ∈ key.toList, c.isLower = true ∨ c = '-') ∧
    key.length ≤ 1024 ∧ key ∉ ["null", "true", "false"]

instance (key : String) : Decidable (PlainKey key) :=
  decidable_of_iff (key.toList.head?.any Char.isLower = true ∧
    key.toList.all (fun c => c.isLower || c == '-') = true ∧
    key.length ≤ 1024 ∧ key ∉ ["null", "true", "false"]) (by simp [PlainKey, Option.any_eq_true])

/-- A value that YAML reads from its JSON text. -/
def Literal (value : String) : Prop := ∀ c ∈ value.toList, c.toNat < 0x20 ∨ isLiteral c = true

instance (value : String) : Decidable (Literal value) :=
  decidable_of_iff (value.toList.all (fun c => decide (c.toNat < 0x20) || isLiteral c) = true)
    (by simp [Literal])

def lineEndings (lineEnding : LineEnding) (n : ℕ) : List Char :=
  (List.replicate n lineEnding.text).flatten

section Stretches
variable {σ : Type}

def Document.ofFields (fields : List (Value σ × Value σ)) : Document σ :=
  if fields.isEmpty then .other else .mapping fields

/-- Consecutive lines of front matter, with the fields they hold. -/
structure Stretch (σ : Type) where
  lines : List (List Char)
  fields : List (Value σ × Value σ)

/-- A blank line or a comment. -/
structure Filler (yaml : Yaml σ) (line : List Char) : Prop where
  form : line = [] ∨ line.head? = some '#'
  oneLine : ∀ c ∈ line, isBreak c = false
  read : yaml line = .ok .other

/-- Text that alone reads as these fields of a block mapping, whatever blank lines follow, and holds
no marker of documents. -/
structure Block (yaml : Yaml σ) (lineEnding : LineEnding) (text : List Char)
    (fields : List (Value σ × Value σ)) : Prop where
  some_field : fields ≠ []
  start : ∃ c ∈ text.head?, startsKey c = true
  undivided : ∀ b, isBreak b = true → ¬ b :: marker <:+: text ∧ ¬ b :: ['.', '.', '.'] <:+: text
  stable : ∀ n, yaml (text ++ lineEndings lineEnding n) = .ok (.mapping fields)

def Stretch.Reads (yaml : Yaml σ) (lineEnding : LineEnding) (s : Stretch σ) : Prop :=
  (s.fields = [] ∧ ∃ line, s.lines = [line] ∧ Filler yaml line) ∨
    Block yaml lineEnding (lineEnding.text.intercalate s.lines) s.fields

/-- What the code relies on of YAML: a managed field written as JSON is that field, and a block
mapping written one stretch after the other has the fields of all of them. -/
structure Yaml.Lawful (yaml : Yaml σ) : Prop where
  field : ∀ {key value : String} (lineEnding : LineEnding) (n : ℕ), PlainKey key → Literal value →
    yaml (fieldLine key value ++ lineEndings lineEnding n) =
      .ok (.mapping [(.string key, .string value)])
  stretches : ∀ (lineEnding : LineEnding) (stretches : List (Stretch σ)),
    (∀ s ∈ stretches, s.Reads yaml lineEnding) →
      ((stretches.flatMap (·.fields)).map Prod.fst).Nodup →
        yaml (lineEnding.text.intercalate (stretches.flatMap (·.lines))) =
          .ok (.ofFields (stretches.flatMap (·.fields)))

variable [DecidableEq σ]

/-- The entry of a key is one line that shows the key, with the indented lines under it; no other
line shows it. -/
def Stretch.Shows (yaml : Yaml σ) (key : String) (s : Stretch σ) : Prop :=
  if .string key ∈ s.fields.map Prod.fst then
    ∃ head rest value, s = ⟨head :: rest, [(.string key, value)]⟩ ∧
      isTopLevelKey yaml head key = true ∧ ∀ line ∈ rest, isContinuation line = true
  else ∀ line ∈ s.lines, isTopLevelKey yaml line key = false

/-- Stretches in which the fields can be edited line by line. -/
structure Laid (yaml : Yaml σ) (lineEnding : LineEnding) (fields : List (String × Option String))
    (stretches : List (Stretch σ)) : Prop where
  reads : ∀ s ∈ stretches, s.Reads yaml lineEnding
  nodup : ((stretches.flatMap (·.fields)).map Prod.fst).Nodup
  shows : ∀ field ∈ fields, ∀ s ∈ stretches, s.Shows yaml field.1

end Stretches

section Lines
variable {lineEnding : LineEnding} {lines : List (List Char)}

theorem intercalate_eq_nil (h : lineEnding.text.intercalate lines = []) :
    lines = [] ∨ lines = [[]] := by
  cases lines with
  | nil => exact .inl rfl
  | cons line rest =>
    by_cases hrest : rest = []
    · rw [hrest, List.intercalate_singleton] at h
      exact .inr (by rw [h, hrest])
    · rw [List.intercalate_cons_of_ne_nil hrest, List.append_eq_nil_iff, List.append_eq_nil_iff] at h
      exact absurd h.1.2 lineEnding.text_ne_nil

/-- Lines written out are read back, unless they are one empty line. -/
theorem linesOf_intercalate (hfree : ∀ line ∈ lines, ¬ lineEnding.text <:+: line)
    (hline : lines ≠ [[]]) : linesOf lineEnding (lineEnding.text.intercalate lines) = lines := by
  unfold linesOf
  split_ifs with hempty
  · rcases intercalate_eq_nil (List.isEmpty_iff.mp hempty) with h | h
    · exact h.symm
    · exact absurd h hline
  · have hlines : lines ≠ [] := by
      rintro rfl
      exact hempty rfl
    exact pieces_intercalate lineEnding.text_ne_nil lineEnding.clear_text hlines hfree

theorem intercalate_linesOf (frontmatter : List Char) :
    lineEnding.text.intercalate (linesOf lineEnding frontmatter) = frontmatter := by
  unfold linesOf
  split_ifs with hempty
  · rw [List.isEmpty_iff.mp hempty, List.intercalate_nil]
  · exact intercalate_pieces lineEnding.text_ne_nil lineEnding.clear_text frontmatter

theorem linesOf_free {frontmatter line : List Char} (h : line ∈ linesOf lineEnding frontmatter) :
    ¬ lineEnding.text <:+: line := by
  unfold linesOf at h
  split_ifs at h with hempty
  · cases h
  · exact mem_pieces_free lineEnding.text_ne_nil lineEnding.clear_text h

end Lines

section Update
variable {σ : Type} [DecidableEq σ] {yaml : Yaml σ} {key : String} {value : Option String}
variable {lines before rest after : List (List Char)} {head : List Char}

theorem findIdxs_none {p : List Char → Bool} {k : ℕ} (h : ∀ line ∈ lines, p line = false) :
    lines.findIdxs p k = [] := by
  induction lines generalizing k with
  | nil => rfl
  | cons line rest ih =>
    rw [List.findIdxs_cons, h line List.mem_cons_self, if_neg Bool.false_ne_true]
    exact ih fun line hmem => h line (List.mem_cons_of_mem _ hmem)

theorem findIdxs_one {p : List Char → Bool} {k : ℕ} (hbefore : ∀ line ∈ before, p line = false)
    (hhead : p head = true) (hafter : ∀ line ∈ after, p line = false) :
    (before ++ head :: after).findIdxs p k = [k + before.length] := by
  induction before generalizing k with
  | nil =>
    rw [List.nil_append, List.findIdxs_cons, if_pos hhead, findIdxs_none hafter, List.length_nil,
      Nat.add_zero]
  | cons line before ih =>
    rw [List.cons_append, List.findIdxs_cons, hbefore line List.mem_cons_self,
      if_neg Bool.false_ne_true, ih fun line hmem => hbefore line (List.mem_cons_of_mem _ hmem),
      List.length_cons]
    congr 1
    omega

/-- The line of a field that is set. -/
def fieldLines (key : String) (value : Option String) : List (List Char) :=
  (value.map (fieldLine key)).toList

theorem updateLines_absent (h : ∀ line ∈ lines, isTopLevelKey yaml line key = false) :
    updateLines yaml lines key value = .ok (fieldLines key value ++ lines) := by
  unfold updateLines
  rw [findIdxs_none h]
  cases value <;> rfl

theorem takeWhile_continuation (hrest : ∀ line ∈ rest, isContinuation line = true)
    (hstop : ∀ line ∈ after.head?, isContinuation line = false) :
    (rest ++ after).takeWhile isContinuation = rest := by
  rw [List.takeWhile_append_of_pos hrest]
  cases after with
  | nil => rw [List.takeWhile_nil, List.append_nil]
  | cons line after =>
    rw [List.takeWhile_cons_of_neg (by simpa using hstop line rfl), List.append_nil]

theorem continuation_not_key {line : List Char} (h : isContinuation line = true) :
    isTopLevelKey yaml line key = false := by
  have hspace : ∃ c text, line = c :: text ∧ isWhitespace c = true := by
    unfold isContinuation at h
    cases line with
    | nil => simp at h
    | cons c text =>
      refine ⟨c, text, rfl, ?_⟩
      simp only [List.head?_cons, Bool.or_eq_true, beq_iff_eq, Option.some.injEq] at h
      rcases h with rfl | rfl <;> decide
  obtain ⟨c, text, rfl, hc⟩ := hspace
  have htrim : trimStart (c :: text) ≠ c :: text := by
    intro hsame
    have hle := (List.dropWhile_suffix isWhitespace (l := text)).length_le
    have hlength := congrArg List.length hsame
    rw [trimStart, List.dropWhile_cons_of_pos hc, List.length_cons] at hlength
    omega
  unfold isTopLevelKey
  rw [beq_eq_false_iff_ne.mpr htrim, Bool.false_and]

/-- An entry of one key gives way to its new line, or to nothing. -/
theorem updateLines_present (hbefore : ∀ line ∈ before, isTopLevelKey yaml line key = false)
    (hhead : isTopLevelKey yaml head key = true) (hrest : ∀ line ∈ rest, isContinuation line = true)
    (hafter : ∀ line ∈ after, isTopLevelKey yaml line key = false)
    (hstop : ∀ line ∈ after.head?, isContinuation line = false) :
    updateLines yaml (before ++ head :: (rest ++ after)) key value =
      .ok (before ++ (fieldLines key value ++ after)) := by
  have hothers : ∀ line ∈ rest ++ after, isTopLevelKey yaml line key = false := by
    intro line hmem
    rcases List.mem_append.mp hmem with h | h
    · exact continuation_not_key (hrest line h)
    · exact hafter line h
  have hindex := findIdxs_one (p := (isTopLevelKey yaml · key)) (k := 0) hbefore hhead hothers
  rw [Nat.zero_add] at hindex
  have hdrop : (before ++ head :: (rest ++ after)).drop (before.length + 1) = rest ++ after := by
    rw [List.append_cons, List.drop_left' (by simp)]
  have hend : continuationEnd (before ++ head :: (rest ++ after)) before.length =
      before.length + 1 + rest.length := by
    rw [continuationEnd, hdrop, takeWhile_continuation hrest hstop]
  have hbehind : (before ++ head :: (rest ++ after)).drop (before.length + 1 + rest.length) =
      after := by
    rw [← List.drop_drop, hdrop, List.drop_left]
  unfold updateLines
  rw [hindex]
  cases value with
  | none =>
    simp only [hend, hbehind, List.take_left, fieldLines]
    rfl
  | some text =>
    simp only [hend, hbehind, List.take_left, fieldLines]
    rfl

end Update

end VibeKanban.AgentCommands
