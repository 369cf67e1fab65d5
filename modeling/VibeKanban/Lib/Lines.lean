import Mathlib.Data.List.Basic

/-! Byte streams cut into lines, writes into the middle of a file, and reading page by page. -/
namespace VibeKanban.Lib

section Lines
variable {β : Type*} [DecidableEq β] {d : β}

/-- What stands up to the first delimiter, the delimiter included, and the rest. -/
def readUntil (d : β) : List β → List β × List β
  | [] => ([], [])
  | b :: rest =>
    if b = d then ([b], rest) else (b :: (readUntil d rest).1, (readUntil d rest).2)

theorem readUntil_line {line rest : List β} (h : d ∉ line) :
    readUntil d (line ++ d :: rest) = (line ++ [d], rest) := by
  induction line with
  | nil => simp [readUntil]
  | cons b line ih =>
    rw [List.mem_cons, not_or] at h
    rw [List.cons_append, readUntil, if_neg (Ne.symm h.1), ih h.2]
    rfl

theorem readUntil_unfinished {bytes : List β} (h : d ∉ bytes) : readUntil d bytes = (bytes, []) := by
  induction bytes with
  | nil => rfl
  | cons b bytes ih =>
    rw [List.mem_cons, not_or] at h
    rw [readUntil, if_neg (Ne.symm h.1), ih h.2]

/-- A stream is its first line and the rest, or has no complete line. -/
theorem exists_line (d : β) (bytes : List β) :
    d ∉ bytes ∨ ∃ line rest, d ∉ line ∧ bytes = line ++ d :: rest := by
  by_cases h : d ∈ bytes
  · obtain ⟨line, rest, hbytes, hline⟩ := List.eq_append_cons_of_mem h
    exact Or.inr ⟨line, rest, hline, hbytes⟩
  · exact Or.inl h

/-- The complete lines of a stream, each with its delimiter. -/
def completeLines (d : β) : List β → List (List β)
  | [] => []
  | b :: rest =>
    if b = d then [b] :: completeLines d rest
    else match completeLines d rest with
      | [] => []
      | line :: lines => (b :: line) :: lines

theorem completeLines_unfinished {bytes : List β} (h : d ∉ bytes) : completeLines d bytes = [] := by
  induction bytes with
  | nil => rfl
  | cons b bytes ih =>
    rw [List.mem_cons, not_or] at h
    rw [completeLines, if_neg (Ne.symm h.1), ih h.2]

theorem completeLines_line {line rest : List β} (h : d ∉ line) :
    completeLines d (line ++ d :: rest) = (line ++ [d]) :: completeLines d rest := by
  induction line with
  | nil => simp [completeLines]
  | cons b line ih =>
    rw [List.mem_cons, not_or] at h
    rw [List.cons_append, completeLines, if_neg (Ne.symm h.1), ih h.2]
    rfl

/-- Complete lines end with the only delimiter in them. -/
theorem completeLines_form {bytes line : List β}
    (h : line ∈ completeLines d bytes) : ∃ body, d ∉ body ∧ line = body ++ [d] := by
  induction bytes generalizing line with
  | nil => cases h
  | cons b rest ih =>
    rw [completeLines] at h
    split_ifs at h with hb
    · rcases List.mem_cons.mp h with rfl | h
      · exact ⟨[], List.not_mem_nil, by rw [hb]; rfl⟩
      · exact ih h
    · split at h
      next => cases h
      next first lines hlines =>
        rcases List.mem_cons.mp h with rfl | h
        · obtain ⟨body, hbody, rfl⟩ := @ih first (by rw [hlines]; exact List.mem_cons_self)
          refine ⟨b :: body, ?_, rfl⟩
          rw [List.mem_cons, not_or]
          exact ⟨Ne.symm hb, hbody⟩
        · exact ih (by rw [hlines]; exact List.mem_cons_of_mem _ h)

/-- Lines are found again in their concatenation. -/
theorem completeLines_flatten {lines : List (List β)}
    (h : ∀ line ∈ lines, ∃ body, d ∉ body ∧ line = body ++ [d]) :
    completeLines d lines.flatten = lines := by
  induction lines with
  | nil => rfl
  | cons line rest ih =>
    obtain ⟨body, hbody, rfl⟩ := h line List.mem_cons_self
    rw [List.flatten_cons, List.append_assoc, List.singleton_append, completeLines_line hbody,
      ih fun line hline => h line (List.mem_cons_of_mem _ hline)]

/-- The lines of a stream, each with its delimiter; the last may be unfinished. -/
def splitInclusive (d : β) : List β → List (List β)
  | [] => []
  | b :: rest =>
    if b = d then [b] :: splitInclusive d rest
    else match splitInclusive d rest with
      | [] => [[b]]
      | line :: lines => (b :: line) :: lines

theorem splitInclusive_line {line : List β} (h : d ∉ line) (rest : List β) :
    splitInclusive d (line ++ d :: rest) = (line ++ [d]) :: splitInclusive d rest := by
  induction line with
  | nil => simp [splitInclusive]
  | cons b line ih =>
    rw [List.mem_cons, not_or] at h
    rw [List.cons_append, splitInclusive, if_neg (Ne.symm h.1), ih h.2]
    rfl

theorem splitInclusive_unfinished {bytes : List β} (h : d ∉ bytes) (hne : bytes ≠ []) :
    splitInclusive d bytes = [bytes] := by
  induction bytes with
  | nil => exact absurd rfl hne
  | cons b bytes ih =>
    rw [List.mem_cons, not_or] at h
    rw [splitInclusive, if_neg (Ne.symm h.1)]
    by_cases hempty : bytes = []
    · rw [hempty, splitInclusive]
    · rw [ih h.2 hempty]

theorem flatten_splitInclusive (d : β) (bytes : List β) : (splitInclusive d bytes).flatten = bytes := by
  induction bytes with
  | nil => rfl
  | cons b rest ih =>
    rw [splitInclusive]
    split_ifs with hb
    · rw [List.flatten_cons, ih, List.singleton_append]
    · generalize splitInclusive d rest = lines at ih
      cases lines with
      | nil => rw [← ih]; rfl
      | cons line lines => rw [← ih]; rfl

/-- Lines with their delimiters, of which the last may be unfinished. -/
inductive IsLines (d : β) : List (List β) → Prop where
  | nil : IsLines d []
  | unfinished {line : List β} : d ∉ line → line ≠ [] → IsLines d [line]
  | line {line : List β} {lines : List (List β)} :
    d ∉ line → IsLines d lines → IsLines d ((line ++ [d]) :: lines)

theorem splitInclusive_flatten {lines : List (List β)} (h : IsLines d lines) :
    splitInclusive d lines.flatten = lines := by
  induction h with
  | nil => rfl
  | unfinished hline hne =>
    rw [List.flatten_singleton]
    exact splitInclusive_unfinished hline hne
  | line hline _ ih =>
    rw [List.flatten_cons, List.append_assoc, List.singleton_append, splitInclusive_line hline, ih]

theorem isLines_splitInclusive (d : β) (bytes : List β) : IsLines d (splitInclusive d bytes) := by
  induction bytes with
  | nil => exact .nil
  | cons b rest ih =>
    rw [splitInclusive]
    by_cases hb : b = d
    · rw [if_pos hb, hb]
      exact @IsLines.line _ d [] _ List.not_mem_nil ih
    · rw [if_neg hb]
      generalize splitInclusive d rest = lines at ih
      cases ih with
      | nil => exact .unfinished (by simpa using Ne.symm hb) (List.cons_ne_nil _ _)
      | unfinished hline _ =>
        apply IsLines.unfinished _ (List.cons_ne_nil _ _)
        rw [List.mem_cons, not_or]
        exact ⟨Ne.symm hb, hline⟩
      | @line line lines hline hlines =>
        apply @IsLines.line _ d (b :: line) _ _ hlines
        rw [List.mem_cons, not_or]
        exact ⟨Ne.symm hb, hline⟩

omit [DecidableEq β] in
/-- Some of the lines are lines again. -/
theorem IsLines.sublist {lines kept : List (List β)} (h : IsLines d lines)
    (hkept : kept.Sublist lines) : IsLines d kept := by
  induction h generalizing kept with
  | nil =>
    rw [List.sublist_nil.mp hkept]
    exact .nil
  | unfinished hline hne =>
    rcases List.sublist_singleton.mp hkept with rfl | rfl
    · exact .nil
    · exact .unfinished hline hne
  | line hline _ ih =>
    cases hkept with
    | cons _ hrest => exact ih hrest
    | cons_cons _ hrest => exact .line hline (ih hrest)

end Lines

section Text

/-- A line without its line end. -/
def lineText (line : List Char) : List Char :=
  if line.getLast? = some '\n' then
    let body := line.dropLast
    if body.getLast? = some '\r' then body.dropLast else body
  else line

theorem lineText_line (body : List Char) :
    lineText (body ++ ['\n']) = if body.getLast? = some '\r' then body.dropLast else body := by
  unfold lineText
  rw [if_pos List.getLast?_concat, List.dropLast_concat]

theorem lineText_unfinished {line : List Char} (h : '\n' ∉ line) : lineText line = line := by
  unfold lineText
  rw [if_neg]
  intro hlast
  exact h (List.mem_of_getLast? hlast)

theorem not_mem_lineText {line : List Char} (h : IsLines '\n' [line]) : '\n' ∉ lineText line := by
  cases h with
  | unfinished hline _ =>
    rw [lineText_unfinished hline]
    exact hline
  | @line body _ hbody _ =>
    rw [lineText_line]
    split_ifs
    · exact fun hmem => hbody (List.dropLast_subset _ hmem)
    · exact hbody

/-- A line end is taken from the end only. -/
theorem lineText_cons {c : Char} {tail : List Char} (h : c ≠ '\n') (h' : c ≠ '\r') :
    lineText (c :: tail) = c :: lineText tail := by
  unfold lineText
  cases tail with
  | nil => simp [h]
  | cons b rest =>
    rw [List.getLast?_cons_cons, List.dropLast_cons_cons]
    by_cases hlast : (b :: rest).getLast? = some '\n'
    · simp only [if_pos hlast]
      cases hbody : (b :: rest).dropLast with
      | nil => simp [h']
      | cons a body =>
        rw [List.getLast?_cons_cons, List.dropLast_cons_cons]
        split_ifs <;> rfl
    · simp only [if_neg hlast]

def lines (text : List Char) : List (List Char) := (splitInclusive '\n' text).map lineText

theorem lines_flatten {raw : List (List Char)} (h : IsLines '\n' raw) :
    lines raw.flatten = raw.map lineText := by
  unfold lines
  rw [splitInclusive_flatten h]

end Text

section Writes
variable {β : Type*}

/-- Overwrite a file from a position on. -/
def writeAt (file : List β) (position : ℕ) (bytes : List β) : List β :=
  file.take position ++ bytes ++ file.drop (position + bytes.length)

/-- A write at the end of the front part leaves it alone. -/
theorem writeAt_append (front back bytes : List β) :
    writeAt (front ++ back) front.length bytes = front ++ (bytes ++ back.drop bytes.length) := by
  unfold writeAt
  rw [List.take_left', List.drop_append, List.append_assoc]
  · have hlen : front.length + bytes.length - front.length = bytes.length := by omega
    rw [hlen, List.drop_eq_nil_of_le (by omega), List.nil_append]
  · rfl

end Writes

section Paging
variable {σ ε α : Type*}

/-- Pages are read until one is empty; their concatenation is the result. -/
inductive Paged (next : σ → Except ε (List α × σ)) : σ → Except ε (List α) → Prop where
  | done {s t : σ} : next s = .ok ([], t) → Paged next s (.ok [])
  | more {s t : σ} {page : List α} {result : Except ε (List α)} :
    next s = .ok (page, t) → page ≠ [] → Paged next t result →
      Paged next s (result.map (page ++ ·))
  | fail {s : σ} {e : ε} : next s = .error e → Paged next s (.error e)

/-- Paging has one result. -/
theorem Paged.unique {next : σ → Except ε (List α × σ)} {s : σ} {r r' : Except ε (List α)}
    (h : Paged next s r) (h' : Paged next s r') : r = r' := by
  induction h generalizing r' with
  | done hnext =>
    cases h' with
    | done _ => rfl
    | more hnext' hpage _ =>
      rw [hnext] at hnext'
      exact absurd (Prod.mk.inj (Except.ok.inj hnext')).1.symm hpage
    | fail hnext' =>
      rw [hnext] at hnext'
      cases hnext'
  | more hnext hpage _ ih =>
    cases h' with
    | done hnext' =>
      rw [hnext] at hnext'
      exact absurd (Prod.mk.inj (Except.ok.inj hnext')).1 hpage
    | more hnext' _ hrest =>
      rw [hnext] at hnext'
      obtain ⟨rfl, rfl⟩ := Prod.mk.inj (Except.ok.inj hnext')
      rw [ih hrest]
    | fail hnext' =>
      rw [hnext] at hnext'
      cases hnext'
  | fail hnext =>
    cases h' with
    | done hnext' =>
      rw [hnext] at hnext'
      cases hnext'
    | more hnext' _ _ =>
      rw [hnext] at hnext'
      cases hnext'
    | fail hnext' =>
      rw [hnext] at hnext'
      rw [Except.error.inj hnext']

end Paging

end VibeKanban.Lib
