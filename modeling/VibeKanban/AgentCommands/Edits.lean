import VibeKanban.AgentCommands.FrontMatter

/-! An edit of one field takes front matter that is laid out in stretches to front matter that is, with
the field set or gone and every other field as it was. -/
namespace VibeKanban.AgentCommands
open Lib Lib.JsonText

section Characters
variable {c : Char} {key value : String}

theorem isLower_toNat (h : c.isLower = true) : 97 ≤ c.toNat ∧ c.toNat ≤ 122 := by
  unfold Char.isLower at h
  simp only [ge_iff_le, Bool.and_eq_true, decide_eq_true_eq, UInt32.le_iff_toNat_le] at h
  exact h

theorem isBreak_le {d : Char} (h : isBreak d = true) : d.toNat < 0x20 ∨ 0x7f < d.toNat := by
  simp only [isBreak, Bool.or_eq_true, beq_iff_eq] at h
  rcases h with (((rfl | rfl) | h) | h) | h
  · exact .inl (by decide)
  · exact .inl (by decide)
  all_goals
    right
    omega

theorem isBreak_ascii (hlow : 0x20 ≤ c.toNat) (hhigh : c.toNat ≤ 0x7f) : isBreak c = false := by
  rw [Bool.eq_false_iff]
  intro hbreak
  rcases isBreak_le hbreak with h | h <;> omega

theorem startsKey_of_isLower (h : c.isLower = true) : startsKey c = true := by
  obtain ⟨hlow, hhigh⟩ := isLower_toNat h
  have hfar : ∀ d ∈ indicators, d.toNat < 97 ∨ 122 < d.toNat := by simp [indicators]
  have hindicator : c ∉ indicators := by
    intro hmem
    have hout := hfar c hmem
    omega
  have hbreak : isBreak c = false := isBreak_ascii (by omega) (by omega)
  have hspace : isWhitespace c = false := by
    simp only [isWhitespace, Bool.or_eq_false_iff, Bool.and_eq_false_iff, beq_eq_false_iff_ne,
      decide_eq_false_iff_not]
    omega
  have hliteral : isLiteral c = true := by
    simp only [isLiteral, hbreak, Bool.and_eq_true, bne_iff_ne, decide_eq_true_eq,
      Bool.not_eq_true', Bool.and_eq_false_iff, decide_eq_false_iff_not, and_true]
    omega
  simp [startsKey, hliteral, hspace, hindicator]

theorem startsKey_not_space (h : startsKey c = true) : isWhitespace c = false := by
  simp only [startsKey, Bool.or_eq_true, beq_iff_eq, Bool.and_eq_true, Bool.not_eq_true'] at h
  rcases h with (rfl | rfl) | ⟨⟨_, hspace⟩, _⟩
  · decide
  · decide
  · exact hspace

theorem isBreak_escapeChar (hc : c.toNat < 0x20 ∨ isLiteral c = true) :
    ∀ d ∈ escapeChar c, isBreak d = false := by
  unfold escapeChar
  cases hshort : shortEscapes.lookup c with
  | some letter =>
    have hletter : ∀ pair ∈ shortEscapes, isBreak pair.2 = false := by decide
    intro d hd
    rcases List.mem_cons.mp hd with rfl | hd
    · decide
    · rw [List.mem_singleton.mp hd]
      exact hletter _ (mem_of_lookup hshort)
  | none =>
    intro d hd
    simp only at hd
    split_ifs at hd with hcontrol
    · have hdigit : ∀ n < 16, isBreak (hexDigit n) = false := by decide
      simp only [List.mem_cons, List.not_mem_nil, or_false] at hd
      rcases hd with rfl | rfl | rfl | rfl | rfl | rfl
      · decide
      · decide
      · decide
      · decide
      · exact hdigit _ (by omega)
      · exact hdigit _ (by omega)
    · rw [List.mem_singleton.mp hd]
      have hliteral := hc.resolve_left hcontrol
      simp only [isLiteral, Bool.and_eq_true, Bool.not_eq_true'] at hliteral
      exact hliteral.1.1.1.1.2

/-- No line break gets into the line of a field. -/
theorem isBreak_fieldLine (hkey : PlainKey key) (hvalue : Literal value) :
    ∀ c ∈ fieldLine key value, isBreak c = false := by
  intro c hc
  simp only [fieldLine, printStr, List.mem_append, List.mem_cons, List.mem_flatMap,
    List.not_mem_nil, or_false] at hc
  rcases hc with hc | rfl | rfl | rfl | ⟨d, hd, hc⟩ | rfl
  · rcases hkey.2.1 c hc with hlower | rfl
    · obtain ⟨hlow, hhigh⟩ := isLower_toNat hlower
      exact isBreak_ascii (by omega) (by omega)
    · decide
  · decide
  · decide
  · decide
  · exact isBreak_escapeChar (hvalue d hd) c hc
  · decide

theorem fieldLine_start (hkey : PlainKey key) (text : String) :
    ∃ c rest, fieldLine key text = c :: rest ∧ startsKey c = true := by
  obtain ⟨c, hc, hlower⟩ := hkey.1
  obtain ⟨rest, hrest⟩ := List.head?_eq_some_iff.mp hc
  refine ⟨c, rest ++ (':' :: ' ' :: printStr text), ?_, startsKey_of_isLower hlower⟩
  rw [fieldLine, hrest, List.cons_append]

theorem fieldLine_free (hkey : PlainKey key) (hvalue : Literal value) (lineEnding : LineEnding) :
    ¬ lineEnding.text <:+: fieldLine key value := by
  intro hwithin
  have hbreak : '\n' ∈ lineEnding.text := by cases lineEnding <;> decide
  have := isBreak_fieldLine hkey hvalue '\n' (hwithin.subset hbreak)
  cases this

theorem fieldLine_ne_marker : fieldLine key value ≠ marker := by
  intro hsame
  have hcolon : ':' ∈ fieldLine key value :=
    List.mem_append_right _ (List.mem_cons_self)
  rw [hsame] at hcolon
  exact absurd hcolon (by decide)

end Characters

section Edit
variable {σ : Type} {yaml : Yaml σ} {lineEnding : LineEnding}
variable {fields : List (String × Option String)} {key : String} {value : Option String}
variable {before middle after stretches : List (Stretch σ)}

def fieldsOf (stretches : List (Stretch σ)) : List (Value σ × Value σ) := stretches.flatMap (·.fields)

def linesIn (stretches : List (Stretch σ)) : List (List Char) := stretches.flatMap (·.lines)

/-- The stretch of a field that is set. -/
def entries (key : String) (value : Option String) : List (Stretch σ) :=
  (value.map fun text => ⟨[fieldLine key text], [(.string key, .string text)]⟩).toList

theorem linesIn_entries : linesIn (entries key value : List (Stretch σ)) = fieldLines key value := by
  cases value <;> rfl

theorem fieldsOf_append (l m : List (Stretch σ)) : fieldsOf (l ++ m) = fieldsOf l ++ fieldsOf m :=
  List.flatMap_append

theorem linesIn_append (l m : List (Stretch σ)) : linesIn (l ++ m) = linesIn l ++ linesIn m :=
  List.flatMap_append

theorem mem_entries {s : Stretch σ} (h : s ∈ entries key value) :
    ∃ text ∈ value, s = ⟨[fieldLine key text], [(.string key, .string text)]⟩ := by
  cases value with
  | none => cases h
  | some text => exact ⟨text, rfl, List.mem_singleton.mp h⟩

theorem Block.first_line {lines : List (List Char)} {found : List (Value σ × Value σ)}
    (h : Block yaml lineEnding (lineEnding.text.intercalate lines) found) :
    ∃ c line rest, lines = (c :: line) :: rest ∧ startsKey c = true := by
  obtain ⟨c, hc, hstarts⟩ := h.start
  have hbreak : ∀ d ∈ lineEnding.text.head?, startsKey d = false := by
    cases lineEnding <;> simp [LineEnding.text] <;> rfl
  cases lines with
  | nil => cases hc
  | cons line rest =>
    cases line with
    | nil =>
      by_cases hrest : rest = []
      · rw [hrest, List.intercalate_singleton] at hc
        cases hc
      · rw [List.intercalate_cons_of_ne_nil hrest, List.nil_append,
          List.head?_append_of_ne_nil _ lineEnding.text_ne_nil] at hc
        rw [hbreak c hc] at hstarts
        cases hstarts
    | cons d line =>
      rw [List.intercalate_cons_cons_left, List.head?_cons, Option.mem_some_iff] at hc
      rw [← hc] at hstarts
      exact ⟨d, line, rest, rfl, hstarts⟩

/-- No stretch starts with a line that continues another. -/
theorem Stretch.Reads.first_line {s : Stretch σ} (h : s.Reads yaml lineEnding) :
    ∃ line rest, s.lines = line :: rest ∧ isContinuation line = false := by
  rcases h with ⟨_, line, hline, hfiller⟩ | hblock
  · refine ⟨line, [], hline, ?_⟩
    rcases hfiller.form with rfl | hhead
    · rfl
    · rw [isContinuation, hhead]
      rfl
  · obtain ⟨c, line, rest, hlines, hstarts⟩ := hblock.first_line
    refine ⟨c :: line, rest, hlines, ?_⟩
    simp only [isContinuation, List.head?_cons, Bool.or_eq_false_iff, beq_eq_false_iff_ne]
    constructor
    · intro hspace
      rw [Option.some.inj hspace] at hstarts
      cases startsKey_not_space hstarts
    · intro htab
      rw [Option.some.inj htab] at hstarts
      cases startsKey_not_space hstarts

theorem entry_reads (hlawful : yaml.Lawful) {text : String} (hkey : PlainKey key)
    (htext : Literal text) :
    (⟨[fieldLine key text], [(.string key, .string text)]⟩ : Stretch σ).Reads yaml lineEnding := by
  right
  rw [List.intercalate_singleton]
  obtain ⟨c, rest, hline, hstarts⟩ := fieldLine_start hkey text
  refine ⟨List.cons_ne_nil _ _, ⟨c, by rw [hline]; rfl, hstarts⟩, ?_, ?_⟩
  · intro b hbreak
    have hfree : b ∉ fieldLine key text := by
      intro hmem
      rw [isBreak_fieldLine hkey htext b hmem] at hbreak
      cases hbreak
    exact ⟨fun h => hfree (h.subset List.mem_cons_self), fun h => hfree (h.subset List.mem_cons_self)⟩
  · exact fun n => hlawful.field lineEnding n hkey htext

variable [DecidableEq σ]

theorem lookup_singleton_ne {name other : Value σ} (h : other ≠ name) (found : Value σ) :
    [(name, found)].lookup other = none := by
  rw [List.lookup_eq_none_iff]
  intro p hp
  rw [List.mem_singleton.mp hp]
  exact bne_iff_ne.mpr h

theorem isTopLevelKey_fieldLine (hlawful : yaml.Lawful) {text other : String} (hkey : PlainKey key)
    (htext : Literal text) : isTopLevelKey yaml (fieldLine key text) other = decide (other = key) := by
  obtain ⟨c, rest, hline, hstarts⟩ := fieldLine_start hkey text
  have htrim : trimStart (fieldLine key text) = fieldLine key text := by
    rw [hline, trimStart, List.dropWhile_cons_of_neg (by simp [startsKey_not_space hstarts])]
  have hread : yaml (fieldLine key text) = .ok (.mapping [(.string key, .string text)]) := by
    have hline := hlawful.field .lf 0 hkey htext
    rwa [lineEndings, List.replicate_zero, List.flatten_nil, List.append_nil] at hline
  unfold isTopLevelKey
  rw [htrim, hread, beq_self_eq_true, Bool.true_and]
  by_cases hsame : other = key
  · rw [hsame]
    simp
  · have hne : (Value.string other : Value σ) ≠ .string key := fun heq => hsame (Value.string.inj heq)
    change (List.lookup (.string other) [(Value.string key, Value.string text)] :
      Option (Value σ)).isSome = _
    rw [lookup_singleton_ne hne, Option.isSome_none, decide_eq_false hsame]

theorem entry_shows (hlawful : yaml.Lawful) {text other : String} (hkey : PlainKey key)
    (htext : Literal text) :
    (⟨[fieldLine key text], [(.string key, .string text)]⟩ : Stretch σ).Shows yaml other := by
  unfold Stretch.Shows
  have htop := @isTopLevelKey_fieldLine σ yaml key _ hlawful text other hkey htext
  split_ifs with hmem
  · have hsame : other = key := by simpa using hmem
    subst hsame
    exact ⟨fieldLine other text, [], .string text, rfl, by simpa using htop, by simp⟩
  · intro line hline
    rw [List.mem_singleton.mp hline, htop]
    simpa using hmem

/-- The stretches of a field give way to its new one. -/
theorem Laid.replace (hlawful : yaml.Lawful) (hkey : PlainKey key)
    (hvalue : ∀ text ∈ value, Literal text)
    (h : Laid yaml lineEnding fields (before ++ (middle ++ after)))
    (hgone : .string key ∉ (fieldsOf (before ++ after)).map Prod.fst) :
    Laid yaml lineEnding fields (before ++ (entries key value ++ after)) := by
  have hsub : (before ++ after).Sublist (before ++ (middle ++ after)) :=
    (List.sublist_append_right middle after).append_left before
  have hmem {s : Stretch σ} (hs : s ∈ before ++ (entries key value ++ after)) :
      s ∈ before ++ after ∨ s ∈ entries key value := by
    simp only [List.mem_append] at hs ⊢
    tauto
  refine ⟨fun s hs => ?_, ?_, fun field hfield s hs => ?_⟩
  · rcases hmem hs with hs | hs
    · exact h.reads s (hsub.subset hs)
    · obtain ⟨text, htext, rfl⟩ := mem_entries hs
      exact entry_reads hlawful hkey (hvalue text htext)
  · have hold : ((fieldsOf (before ++ after)).map Prod.fst).Nodup :=
      h.nodup.sublist ((hsub.flatMap _).map _)
    show ((fieldsOf (before ++ (entries key value ++ after))).map Prod.fst).Nodup
    cases value with
    | none => exact hold
    | some text =>
      have hperm : ((fieldsOf (before ++ (entries key (some text) ++ after))).map Prod.fst).Perm
          (.string key :: (fieldsOf (before ++ after)).map Prod.fst) := by
        simp only [fieldsOf_append, List.map_append]
        exact List.perm_middle
      exact hperm.nodup_iff.mpr (List.nodup_cons.mpr ⟨hgone, hold⟩)
  · rcases hmem hs with hs | hs
    · exact h.shows field hfield s (hsub.subset hs)
    · obtain ⟨text, htext, rfl⟩ := mem_entries hs
      exact entry_shows hlawful hkey (hvalue text htext)

/-- What an edit of a field does to the fields, to the blank lines and comments, and to the lines. -/
structure Edited (key : String) (value : Option String) (stretches edited : List (Stretch σ)) :
    Prop where
  set : (fieldsOf edited).lookup (.string key) = value.map .string
  kept : ∀ other, other ≠ .string key →
    (fieldsOf edited).lookup other = (fieldsOf stretches).lookup other
  fillers : edited.filter (·.fields.isEmpty) = stretches.filter (·.fields.isEmpty)
  lines : ∀ line ∈ linesIn edited, line ∈ linesIn stretches ∨ ∃ text ∈ value, line = fieldLine key text

theorem edited_replace (hmiddle : ∀ s ∈ middle, ∃ old, s.fields = [(.string key, old)])
    (hgone : .string key ∉ (fieldsOf (before ++ after)).map Prod.fst) :
    Edited key value (before ++ (middle ++ after)) (before ++ (entries key value ++ after)) := by
  have hnone {l : List (Value σ × Value σ)} (h : .string key ∉ l.map Prod.fst) :
      l.lookup (.string key) = none := by
    rw [List.lookup_eq_none_iff]
    intro p hp
    rw [bne_iff_ne]
    rintro heq
    exact h (List.mem_map.mpr ⟨p, hp, heq.symm⟩)
  rw [fieldsOf_append, List.map_append, List.mem_append, not_or] at hgone
  have hmiddleFields : ∀ other, other ≠ .string key → (fieldsOf middle).lookup other = none := by
    intro other hother
    rw [List.lookup_eq_none_iff]
    intro p hp
    obtain ⟨s, hs, hp⟩ := List.mem_flatMap.mp hp
    obtain ⟨old, hold⟩ := hmiddle s hs
    rw [hold, List.mem_singleton] at hp
    rw [hp]
    exact bne_iff_ne.mpr hother
  refine ⟨?_, fun other hother => ?_, ?_, fun line hline => ?_⟩
  · rw [fieldsOf_append, fieldsOf_append, List.lookup_append, List.lookup_append, hnone hgone.1,
      hnone hgone.2]
    cases value with
    | none => rfl
    | some text => simp [entries, fieldsOf]
  · have hentries : (fieldsOf (entries key value : List (Stretch σ))).lookup other = none := by
      cases value with
      | none => rfl
      | some text => exact lookup_singleton_ne hother (.string text)
    simp only [fieldsOf_append, List.lookup_append, hentries, hmiddleFields other hother]
  · have hnew : (entries key value : List (Stretch σ)).filter (·.fields.isEmpty) = [] := by
      cases value <;> rfl
    have hold : middle.filter (·.fields.isEmpty) = [] := by
      rw [List.filter_eq_nil_iff]
      intro s hs
      obtain ⟨old, hold⟩ := hmiddle s hs
      simp [hold]
    simp only [List.filter_append, hnew, hold]
  · simp only [linesIn_append, List.mem_append, linesIn_entries] at hline ⊢
    rcases hline with hline | hline | hline
    · exact .inl (.inl hline)
    · right
      cases value with
      | none => cases hline
      | some text => exact ⟨text, rfl, List.mem_singleton.mp hline⟩
    · exact .inl (.inr (.inr hline))

omit [DecidableEq σ] in
/-- The stretch with a key, and the others around it. -/
theorem exists_entry (h : ((fieldsOf stretches).map Prod.fst).Nodup)
    (hmem : .string key ∈ (fieldsOf stretches).map Prod.fst) :
    ∃ before s after, stretches = before ++ (s :: after) ∧
      .string key ∈ s.fields.map Prod.fst ∧
        .string key ∉ (fieldsOf (before ++ after)).map Prod.fst := by
  obtain ⟨p, hp, hkey⟩ := List.mem_map.mp hmem
  obtain ⟨s, hs, hfield⟩ := List.mem_flatMap.mp hp
  obtain ⟨before, after, rfl⟩ := List.append_of_mem hs
  have hin : .string key ∈ s.fields.map Prod.fst := List.mem_map.mpr ⟨p, hfield, hkey⟩
  refine ⟨before, s, after, rfl, hin, fun hother => ?_⟩
  have hperm : ((fieldsOf (before ++ (s :: after))).map Prod.fst).Perm
      (s.fields.map Prod.fst ++ (fieldsOf (before ++ after)).map Prod.fst) := by
    rw [← List.map_append]
    refine List.Perm.map _ ?_
    have : (before ++ (s :: after)).Perm (s :: (before ++ after)) := List.perm_middle
    exact this.flatMap_right _
  have hnodup := hperm.nodup_iff.mp h
  exact List.disjoint_of_nodup_append hnodup hin hother

/-- An edit of one of the fields. -/
theorem Laid.edit (hlawful : yaml.Lawful) (h : Laid yaml lineEnding fields stretches)
    (hfield : (key, value) ∈ fields) (hkey : PlainKey key) (hvalue : ∀ text ∈ value, Literal text) :
    ∃ edited, updateLines yaml (linesIn stretches) key value = .ok (linesIn edited) ∧
      Laid yaml lineEnding fields edited ∧ Edited key value stretches edited := by
  have hquiet {s : Stretch σ} (hs : s ∈ stretches) (hnot : .string key ∉ s.fields.map Prod.fst) :
      ∀ line ∈ s.lines, isTopLevelKey yaml line key = false := by
    have hshows := h.shows (key, value) hfield s hs
    rwa [Stretch.Shows, if_neg hnot] at hshows
  have hquietLines {l : List (Stretch σ)} (hl : ∀ s ∈ l, s ∈ stretches)
      (hnot : .string key ∉ (fieldsOf l).map Prod.fst) :
      ∀ line ∈ linesIn l, isTopLevelKey yaml line key = false := by
    intro line hline
    obtain ⟨s, hs, hline⟩ := List.mem_flatMap.mp hline
    refine hquiet (hl s hs) (fun hin => hnot ?_) line hline
    obtain ⟨p, hp, hpkey⟩ := List.mem_map.mp hin
    exact List.mem_map.mpr ⟨p, List.mem_flatMap.mpr ⟨s, hs, hp⟩, hpkey⟩
  by_cases hmem : .string key ∈ (fieldsOf stretches).map Prod.fst
  · obtain ⟨before, s, after, rfl, hin, hgone⟩ := exists_entry h.nodup hmem
    have hshows := h.shows (key, value) hfield s (by simp)
    rw [Stretch.Shows, if_pos hin] at hshows
    obtain ⟨head, rest, old, rfl, hhead, hrest⟩ := hshows
    have hgoneBefore : .string key ∉ (fieldsOf before).map Prod.fst := by
      rw [fieldsOf_append, List.map_append, List.mem_append, not_or] at hgone
      exact hgone.1
    have hgoneAfter : .string key ∉ (fieldsOf after).map Prod.fst := by
      rw [fieldsOf_append, List.map_append, List.mem_append, not_or] at hgone
      exact hgone.2
    have hstop : ∀ line ∈ (linesIn after).head?, isContinuation line = false := by
      intro line hline
      cases after with
      | nil => cases hline
      | cons s after =>
        obtain ⟨first, others, hfirst, hnot⟩ := (h.reads s (by simp)).first_line
        rw [linesIn, List.flatMap_cons, hfirst, List.cons_append, List.head?_cons,
          Option.mem_some_iff] at hline
        rwa [← hline]
    have hlines : linesIn (before ++ (⟨head :: rest, [(.string key, old)]⟩ :: after)) =
        linesIn before ++ head :: (rest ++ linesIn after) := by
      rw [linesIn_append]
      rfl
    have hlaid : Laid yaml lineEnding fields
        (before ++ ([⟨head :: rest, [(.string key, old)]⟩] ++ after)) := h
    have hedited : Edited key value (before ++ ([⟨head :: rest, [(.string key, old)]⟩] ++ after))
        (before ++ (entries key value ++ after)) :=
      edited_replace (fun s hs => ⟨old, by rw [List.mem_singleton.mp hs]⟩) hgone
    refine ⟨before ++ (entries key value ++ after), ?_, hlaid.replace hlawful hkey hvalue hgone,
      hedited⟩
    rw [hlines, updateLines_present (hquietLines (fun s hs => by simp [hs]) hgoneBefore) hhead hrest
      (hquietLines (fun s hs => by simp [hs]) hgoneAfter) hstop, linesIn_append, linesIn_append,
      linesIn_entries]
  · have hlaid : Laid yaml lineEnding fields ([] ++ ([] ++ stretches)) := h
    have hnothing : ∀ s ∈ ([] : List (Stretch σ)), ∃ old, s.fields = [(.string key, old)] :=
      fun s hs => absurd hs List.not_mem_nil
    have hedited : Edited key value stretches (entries key value ++ stretches) := by
      have hreplaced := @edited_replace σ key value [] [] stretches _ hnothing hmem
      rwa [List.nil_append, List.nil_append, List.nil_append] at hreplaced
    refine ⟨entries key value ++ stretches, ?_, hlaid.replace hlawful hkey hvalue hmem, hedited⟩
    rw [updateLines_absent (hquietLines (fun s hs => hs) hmem), linesIn_append, linesIn_entries]

end Edit

end VibeKanban.AgentCommands
