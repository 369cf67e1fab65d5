import VibeKanban.Diff.Unified

/-! Which lines of a unified diff are in the normalized one. -/
namespace VibeKanban.Diff
open Lib

/-- A line of a hunk: content, or the marker of a missing newline. -/
def isHunkLine (line : List Char) : Bool := startsWithAny [' ', '+', '-', '\\'] line

structure Hunk where
  header : List Char
  body : List (List Char)

/-- The hunks of some lines: each header with the lines of a hunk that follow it. -/
def hunksOf : List (List Char) → List Hunk
  | [] => []
  | line :: rest =>
    if isHeader line then ⟨line, rest.takeWhile isHunkLine⟩ :: hunksOf rest else hunksOf rest

def Hunk.contents (hunk : Hunk) : List (List Char) := hunk.body.filter isContent

def Hunk.Bare (hunk : Hunk) : Prop := trimChars hunk.header = "@@".toList

instance (hunk : Hunk) : Decidable hunk.Bare := inferInstanceAs (Decidable (_ = _))

/-- The lines of a hunk, under its header or one with its counts. -/
def Hunk.expected (hunk : Hunk) : List (List Char) :=
  (if hunk.Bare then countHeader hunk.contents else lineText hunk.header) ::
    hunk.contents.map lineText

/-- Each line on a line of its own. -/
def unlines (lines : List (List Char)) : List Char := lines.flatMap fun line => line ++ ['\n']

/-- Every hunk header and every content line is in the normalized diff once and in order, each on
its own line. -/
def KeepsLines (path unifiedDiff : List Char) : Prop :=
  normalizeUnifiedDiff path unifiedDiff = fileHeader path ++
    unlines ((hunksOf (splitInclusive '\n' unifiedDiff)).flatMap Hunk.expected)

/-- The headers are written out or bare. -/
def WellHeaded (unifiedDiff : List Char) : Prop :=
  ∀ line ∈ splitInclusive '\n' unifiedDiff, isHeader line = true →
    "@@ ".toList.isPrefixOf line = true ∨ trimChars line = "@@".toList

/-- A written header, content under it, and no content after a marker. -/
structure Hunk.Intact (hunk : Hunk) : Prop where
  header : ¬ hunk.Bare
  nonempty : hunk.contents ≠ []
  marker : ∀ line ∈ hunk.body.dropWhile isContent, isContent line = false

section Collect
variable {hunk : List Char} {raw : List (List Char)}

theorem not_mem_countHeader : '\n' ∉ countHeader raw := by
  have hdigits : ∀ n, '\n' ∉ Nat.toDigits 10 n := by
    intro n hmem
    have hdigit := Nat.isDigit_of_mem_toDigits (by omega) (by omega) hmem
    cases hdigit
  unfold countHeader
  simp [hdigits]

/-- The content lines that the code has for a hunk. -/
def Hunk.run (hunk : Hunk) : List (List Char) := hunk.body.takeWhile isContent

theorem takeWhile_isHunkLine (raw : List (List Char)) :
    (raw.takeWhile isHunkLine).takeWhile isContent = raw.takeWhile isContent := by
  rw [List.takeWhile_takeWhile]
  congr 1
  funext line
  unfold isContent isHunkLine startsWithAny
  cases line with
  | nil => rfl
  | cons c _ => 
    simp
    tauto

theorem header_not_content {line : List Char} (h : isHeader line = true) : isContent line = false := by
  unfold isHeader at h
  cases line with
  | nil => cases h
  | cons c rest =>
    have hprefix := List.isPrefixOf_iff_prefix.mp h
    have hc : c = '@' := by
      obtain ⟨tail, htail⟩ := hprefix
      exact (List.cons.inj htail).1.symm
    rw [hc]
    rfl

theorem collectHunks_eq (raw : List (List Char)) :
    collectHunks none raw = (hunksOf raw).map (fun hunk => hunk.header ++ hunk.run.flatten) ∧
      ∀ hunk ≠ [], collectHunks (some hunk) raw = (hunk ++ (raw.takeWhile isContent).flatten) ::
        (hunksOf raw).map fun hunk => hunk.header ++ hunk.run.flatten := by
  induction raw with
  | nil =>
    refine ⟨rfl, ?_⟩
    intro hunk hne
    simp [collectHunks, flush, hunksOf, hne]
  | cons line rest ih =>
    obtain ⟨ihnone, ihsome⟩ := ih
    by_cases hheader : isHeader line = true
    · have hline : line ≠ [] := by
        intro heq
        rw [heq] at hheader
        cases hheader
      have hrun : Hunk.run ⟨line, rest.takeWhile isHunkLine⟩ = rest.takeWhile isContent :=
        takeWhile_isHunkLine rest
      have hmap : (hunksOf (line :: rest)).map (fun hunk => hunk.header ++ hunk.run.flatten) =
          collectHunks (some line) rest := by
        rw [hunksOf, if_pos hheader, List.map_cons, hrun, ihsome line hline]
      constructor
      · rw [collectHunks, if_pos hheader, hmap]
        rfl
      · intro hunk hne
        rw [collectHunks, if_pos hheader, hmap]
        simp [flush, hne, header_not_content hheader]
    · have hmap : hunksOf (line :: rest) = hunksOf rest := by rw [hunksOf, if_neg hheader]
      constructor
      · rw [collectHunks, if_neg hheader, hmap]
        exact ihnone
      · intro hunk hne
        rw [collectHunks, if_neg hheader, hmap]
        by_cases hcontent : isContent line = true
        · have hgrown : hunk ++ line ≠ [] := by simp [hne]
          simp only [hcontent, if_true]
          rw [ihsome _ hgrown]
          simp [hcontent]
        · simp [hcontent, flush, hne, ihnone]

end Collect

section Printed
variable {hunk : Hunk} {raw : List (List Char)}

theorem mem_hunksOf (h : hunk ∈ hunksOf raw) :
    isHeader hunk.header = true ∧ (hunk.header :: hunk.body).Sublist raw := by
  induction raw with
  | nil => cases h
  | cons line rest ih =>
    rw [hunksOf] at h
    by_cases hheader : isHeader line = true
    · rw [if_pos hheader, List.mem_cons] at h
      rcases h with rfl | h
      · exact ⟨hheader, (List.takeWhile_sublist isHunkLine).cons_cons line⟩
      · exact ⟨(ih h).1, (ih h).2.cons line⟩
    · rw [if_neg hheader] at h
      exact ⟨(ih h).1, (ih h).2.cons line⟩

/-- The lines that are printed for a hunk: none without content first, and the first of them joined
to a header that is made. -/
def Hunk.printed (hunk : Hunk) : List (List Char) :=
  match hunk.run with
  | [] => []
  | first :: rest =>
    if hunk.Bare then lineText (countHeader (first :: rest) ++ first) :: rest.map lineText
    else lineText hunk.header :: (first :: rest).map lineText

theorem isLines_append_first {front first : List Char} {rest : List (List Char)}
    (hfront : '\n' ∉ front) (h : IsLines '\n' (first :: rest)) :
    IsLines '\n' ((front ++ first) :: rest) := by
  cases h with
  | unfinished hline hne =>
    apply IsLines.unfinished
    · rw [List.mem_append, not_or]
      exact ⟨hfront, hline⟩
    · exact List.append_ne_nil_of_right_ne_nil front hne
  | line hline hrest =>
    rw [← List.append_assoc]
    apply IsLines.line _ hrest
    rw [List.mem_append, not_or]
    exact ⟨hfront, hline⟩

theorem lines_fixHunkHeader (hheader : isHeader hunk.header = true)
    (hlines : IsLines '\n' (hunk.header :: hunk.run)) :
    (fixHunkHeader (hunk.header ++ hunk.run.flatten)).toList.flatMap lines = hunk.printed := by
  have hsplit := splitInclusive_flatten hlines
  rw [List.flatten_cons] at hsplit
  unfold fixHunkHeader Hunk.printed
  rw [hsplit]
  cases hrun : hunk.run with
  | nil => rfl
  | cons first rest =>
    rw [hrun] at hlines
    have hrest : IsLines '\n' (first :: rest) := hlines.sublist (List.sublist_cons_self _ _)
    simp only [if_pos hheader]
    by_cases hbare : hunk.Bare
    · have htext : countHeader (first :: rest) ++ (first :: rest).flatten =
          ((countHeader (first :: rest) ++ first) :: rest).flatten := by
        rw [List.flatten_cons, List.flatten_cons, List.append_assoc]
      have hblank : trimChars hunk.header = "@@".toList := hbare
      rw [if_pos hblank, if_pos hbare, htext, Option.toList_some, List.flatMap_singleton,
        lines_flatten (isLines_append_first not_mem_countHeader hrest), List.map_cons]
    · have hwritten : ¬ trimChars hunk.header = "@@".toList := hbare
      rw [if_neg hwritten, if_neg hbare, ← List.flatten_cons, Option.toList_some,
        List.flatMap_singleton, lines_flatten hlines, List.map_cons]

/-- A line that is printed: not empty and without a newline. -/
def IsPrinted (line : List Char) : Prop :=
  ("@@ ".toList.isPrefixOf line || isContent line) = true ∧ '\n' ∉ line

theorem isContent_lineText {line : List Char} (h : isContent line = true) :
    isContent (lineText line) = true := by
  cases line with
  | nil => cases h
  | cons c rest =>
    have hc : c ∈ [' ', '+', '-'] := by simpa [isContent, startsWithAny] using h
    have hnewline : c ≠ '\n' := fun heq => absurd (heq ▸ hc) (by decide)
    have hreturn : c ≠ '\r' := fun heq => absurd (heq ▸ hc) (by decide)
    rw [lineText_cons hnewline hreturn]
    exact h

theorem isPrefixOf_lineText {line : List Char} (h : "@@ ".toList.isPrefixOf line = true) :
    "@@ ".toList.isPrefixOf (lineText line) = true := by
  obtain ⟨rest, rfl⟩ := List.isPrefixOf_iff_prefix.mp h
  show "@@ ".toList.isPrefixOf (lineText ('@' :: '@' :: ' ' :: rest)) = true
  rw [lineText_cons (by decide) (by decide), lineText_cons (by decide) (by decide),
    lineText_cons (by decide) (by decide)]
  rfl

theorem isPrinted_printed (hlines : IsLines '\n' (hunk.header :: hunk.run))
    (hwell : "@@ ".toList.isPrefixOf hunk.header = true ∨ hunk.Bare) :
    ∀ line ∈ hunk.printed, IsPrinted line := by
  have hsingle : ∀ line ∈ hunk.header :: hunk.run, IsLines '\n' [line] :=
    fun line hline => hlines.sublist (List.singleton_sublist.mpr hline)
  have hcontents : ∀ line ∈ hunk.run, IsPrinted (lineText line) := by
    intro line hline
    refine ⟨?_, not_mem_lineText (hsingle line (List.mem_cons_of_mem _ hline))⟩
    rw [isContent_lineText (List.mem_takeWhile_imp hline), Bool.or_true]
  unfold Hunk.printed
  cases hrun : hunk.run with
  | nil =>
    intro line hline
    cases hline
  | cons first rest =>
    rw [hrun] at hcontents hlines
    have hrest : IsLines '\n' (first :: rest) := hlines.sublist (List.sublist_cons_self _ _)
    by_cases hbare : hunk.Bare
    · dsimp only
      rw [if_pos hbare, List.forall_mem_cons]
      constructor
      · have hjoined := isLines_append_first (@not_mem_countHeader (first :: rest)) hrest
        have hfirst := hjoined.sublist (List.singleton_sublist.mpr List.mem_cons_self)
        refine ⟨?_, not_mem_lineText hfirst⟩
        rw [isPrefixOf_lineText rfl, Bool.true_or]
      · intro line hline
        obtain ⟨raw, hraw, rfl⟩ := List.mem_map.mp hline
        exact hcontents raw (List.mem_cons_of_mem _ hraw)
    · dsimp only
      rw [if_neg hbare, List.forall_mem_cons]
      constructor
      · refine ⟨?_, not_mem_lineText (hsingle _ List.mem_cons_self)⟩
        rw [isPrefixOf_lineText (hwell.resolve_right hbare), Bool.true_or]
      · intro line hline
        obtain ⟨raw, hraw, rfl⟩ := List.mem_map.mp hline
        exact hcontents raw hraw

theorem intercalate_unlines {printed : List (List Char)} (hne : printed ≠ []) :
    ['\n'].intercalate printed ++ ['\n'] = unlines printed := by
  induction printed with
  | nil => exact absurd rfl hne
  | cons line rest ih =>
    cases rest with
    | nil => simp [unlines]
    | cons next more =>
      have hrest := ih (List.cons_ne_nil _ _)
      unfold unlines at hrest ⊢
      rw [List.flatMap_cons, ← hrest, List.intercalate_cons_cons]
      simp

theorem intercalate_last {printed : List (List Char)} (hne : printed ≠ [])
    (hprinted : ∀ line ∈ printed, IsPrinted line) :
    ∃ c, (['\n'].intercalate printed).getLast? = some c ∧ c ≠ '\n' := by
  induction printed with
  | nil => exact absurd rfl hne
  | cons line rest ih =>
    cases rest with
    | nil =>
      obtain ⟨hstart, hnewline⟩ := hprinted line List.mem_cons_self
      rw [List.intercalate_singleton]
      cases hlast : line.getLast? with
      | none =>
        rw [List.getLast?_eq_none_iff.mp hlast] at hstart
        cases hstart
      | some c =>
        refine ⟨c, rfl, ?_⟩
        rintro rfl
        exact hnewline (List.mem_of_getLast? hlast)
    | cons next more =>
      obtain ⟨c, hlast, hc⟩ := ih (List.cons_ne_nil _ _)
        fun other hother => hprinted other (List.mem_cons_of_mem _ hother)
      refine ⟨c, ?_, hc⟩
      rw [List.intercalate_cons_cons, List.getLast?_append, hlast]
      rfl

theorem concatenate_eq {path : List Char} {hunks printed : List (List Char)}
    (h : hunks.flatMap lines = printed) (hprinted : ∀ line ∈ printed, IsPrinted line) :
    concatenateDiffHunks path hunks = fileHeader path ++ unlines printed := by
  unfold concatenateDiffHunks
  have hkept : printed.filter (fun line => "@@ ".toList.isPrefixOf line || isContent line) =
      printed := List.filter_eq_self.mpr fun line hline => (hprinted line hline).1
  rw [h, hkept]
  by_cases hempty : printed = []
  · rw [hempty]
    have hbody : fileHeader path ++ ['\n'].intercalate [] = fileHeader path := List.append_nil _
    have hlast : (fileHeader path).getLast? = some '\n' := by
      unfold fileHeader
      exact List.getLast?_concat
    simp only [hbody, if_pos hlast, ite_self]
    rw [unlines, List.flatMap_nil, List.append_nil]
  · have hhunks : ¬ hunks.isEmpty = true := by
      intro hnone
      rw [List.isEmpty_iff.mp hnone] at h
      exact hempty h.symm
    obtain ⟨c, hlast, hc⟩ := intercalate_last hempty hprinted
    have hopen : ¬ (fileHeader path ++ ['\n'].intercalate printed).getLast? = some '\n' := by
      rw [List.getLast?_append, hlast]
      simpa using hc
    rw [if_neg hhunks]
    simp only [if_neg hopen]
    rw [List.append_assoc, intercalate_unlines hempty]

/-- The normalized diff has the printed lines of the hunks. -/
theorem normalize_eq {path unifiedDiff : List Char} (hwell : WellHeaded unifiedDiff)
    (hheaded : (splitInclusive '\n' unifiedDiff).any isHeader = true) :
    normalizeUnifiedDiff path unifiedDiff = fileHeader path ++
      unlines ((hunksOf (splitInclusive '\n' unifiedDiff)).flatMap Hunk.printed) := by
  unfold normalizeUnifiedDiff extractUnifiedDiffHunks
  have hraw := isLines_splitInclusive '\n' unifiedDiff
  unfold WellHeaded at hwell
  generalize splitInclusive '\n' unifiedDiff = raw at hwell hheaded hraw
  have hhunks : ∀ hunk ∈ hunksOf raw, isHeader hunk.header = true ∧
      IsLines '\n' (hunk.header :: hunk.run) ∧
      ("@@ ".toList.isPrefixOf hunk.header = true ∨ hunk.Bare) := by
    intro hunk hhunk
    obtain ⟨hheader, hsublist⟩ := mem_hunksOf hhunk
    refine ⟨hheader, ?_, hwell _ (hsublist.subset List.mem_cons_self) hheader⟩
    exact hraw.sublist (((List.takeWhile_sublist isContent).cons_cons _).trans hsublist)
  simp only [if_pos hheaded]
  apply concatenate_eq
  · rw [(collectHunks_eq raw).1, fixHunkHeaders]
    generalize hunksOf raw = hunks at hhunks
    induction hunks with
    | nil => rfl
    | cons hunk rest ih =>
      rw [List.forall_mem_cons] at hhunks
      obtain ⟨⟨hheader, hlines, -⟩, hrest⟩ := hhunks
      have hfirst := lines_fixHunkHeader hheader hlines
      rw [List.flatMap_cons, ← hfirst, ← ih hrest, List.map_cons, List.filterMap_cons]
      cases fixHunkHeader (hunk.header ++ hunk.run.flatten) with
      | none => rfl
      | some fixed => simp
  · intro line hline
    obtain ⟨hunk, hhunk, hmem⟩ := List.mem_flatMap.mp hline
    obtain ⟨-, hlines, hstart⟩ := hhunks hunk hhunk
    exact isPrinted_printed hlines hstart line hmem

end Printed

section Counted
variable {hunk : Hunk} {raw : List (List Char)}

/-- Lines without newlines are counted by the newlines of their text. -/
theorem count_unlines {printed : List (List Char)} (h : ∀ line ∈ printed, '\n' ∉ line) :
    (unlines printed).count '\n' = printed.length := by
  unfold unlines
  induction printed with
  | nil => rfl
  | cons line rest ih =>
    rw [List.forall_mem_cons] at h
    rw [List.flatMap_cons, List.count_append, List.count_append, List.count_eq_zero_of_not_mem h.1,
      ih h.2, List.length_cons, List.count_singleton_self]
    omega

theorem contents_eq (hunk : Hunk) :
    hunk.contents = hunk.run ++ (hunk.body.dropWhile isContent).filter isContent := by
  have hrun : hunk.run.filter isContent = hunk.run :=
    List.filter_eq_self.mpr fun line hline => List.mem_takeWhile_imp hline
  calc hunk.contents
      = (hunk.run ++ hunk.body.dropWhile isContent).filter isContent := by
        rw [Hunk.run, List.takeWhile_append_dropWhile]
        rfl
    _ = _ := by rw [List.filter_append, hrun]

theorem intact_printed (h : hunk.Intact) : hunk.printed = hunk.expected := by
  have hcontents := contents_eq hunk
  rw [List.filter_eq_nil_iff.mpr (by simpa using h.marker), List.append_nil] at hcontents
  unfold Hunk.printed Hunk.expected
  rw [hcontents, if_neg h.header]
  cases hrun : hunk.run with
  | nil => exact absurd (hcontents.trans hrun) h.nonempty
  | cons first rest =>
    dsimp only
    rw [if_neg h.header]

/-- No hunk is printed in more lines than it has, and one that is not intact in fewer. -/
theorem length_printed (hunk : Hunk) :
    hunk.printed.length ≤ hunk.expected.length ∧
      (hunk.printed.length = hunk.expected.length → hunk.Intact) := by
  have hcontents := contents_eq hunk
  have hlength := congrArg List.length hcontents
  rw [List.length_append] at hlength
  have hexpected : hunk.expected.length = hunk.contents.length + 1 := by
    rw [Hunk.expected, List.length_cons, List.length_map]
  rw [hexpected]
  unfold Hunk.printed
  cases hrun : hunk.run with
  | nil =>
    constructor
    · exact Nat.zero_le _
    · intro h
      cases h
  | cons first rest =>
    rw [hrun, List.length_cons] at hlength
    by_cases hbare : hunk.Bare
    · simp only [if_pos hbare, List.length_cons, List.length_map]
      constructor <;> omega
    · simp only [if_neg hbare, List.length_cons, List.length_map]
      constructor
      · omega
      · intro h
        have hnone : (hunk.body.dropWhile isContent).filter isContent = [] := by
          apply List.length_eq_zero_iff.mp
          omega
        refine ⟨hbare, ?_, by simpa [List.filter_eq_nil_iff] using hnone⟩
        rw [hcontents, hrun]
        exact List.cons_ne_nil _ _

theorem length_flatMap_printed (hunks : List Hunk) :
    (hunks.flatMap Hunk.printed).length ≤ (hunks.flatMap Hunk.expected).length ∧
      ((hunks.flatMap Hunk.printed).length = (hunks.flatMap Hunk.expected).length →
        ∀ hunk ∈ hunks, hunk.Intact) := by
  induction hunks with
  | nil => simp
  | cons hunk rest ih =>
    obtain ⟨hle, heq⟩ := length_printed hunk
    obtain ⟨hrestle, hresteq⟩ := ih
    rw [List.flatMap_cons, List.flatMap_cons, List.length_append, List.length_append,
      List.forall_mem_cons]
    constructor
    · omega
    · intro h
      exact ⟨heq (by omega), hresteq (by omega)⟩

theorem flatMap_printed (hunks : List Hunk) (h : ∀ hunk ∈ hunks, hunk.Intact) :
    hunks.flatMap Hunk.printed = hunks.flatMap Hunk.expected := by
  induction hunks with
  | nil => rfl
  | cons hunk rest ih =>
    rw [List.forall_mem_cons] at h
    rw [List.flatMap_cons, List.flatMap_cons, intact_printed h.1, ih h.2]

theorem not_mem_expected (hlines : IsLines '\n' (hunk.header :: hunk.body)) :
    ∀ line ∈ hunk.expected, '\n' ∉ line := by
  have hsingle : ∀ line ∈ hunk.header :: hunk.body, '\n' ∉ lineText line :=
    fun line hline => not_mem_lineText (hlines.sublist (List.singleton_sublist.mpr hline))
  unfold Hunk.expected
  rw [List.forall_mem_cons]
  constructor
  · split_ifs
    · exact not_mem_countHeader
    · exact hsingle _ List.mem_cons_self
  · intro line hline
    obtain ⟨content, hcontent, rfl⟩ := List.mem_map.mp hline
    exact hsingle content (List.mem_cons_of_mem _ (List.mem_filter.mp hcontent).1)

theorem keepsLines_iff {path unifiedDiff : List Char} (hwell : WellHeaded unifiedDiff)
    (hheaded : (splitInclusive '\n' unifiedDiff).any isHeader = true) :
    KeepsLines path unifiedDiff ↔
      ∀ hunk ∈ hunksOf (splitInclusive '\n' unifiedDiff), hunk.Intact := by
  unfold KeepsLines
  rw [normalize_eq hwell hheaded, List.append_cancel_left_eq]
  have hraw := isLines_splitInclusive '\n' unifiedDiff
  unfold WellHeaded at hwell
  generalize splitInclusive '\n' unifiedDiff = raw at hwell hraw ⊢
  constructor
  · intro h
    have hprinted : ∀ line ∈ (hunksOf raw).flatMap Hunk.printed, '\n' ∉ line := by
      intro line hline
      obtain ⟨hunk, hhunk, hmem⟩ := List.mem_flatMap.mp hline
      obtain ⟨hheader, hsublist⟩ := mem_hunksOf hhunk
      have hlines := hraw.sublist (((List.takeWhile_sublist isContent).cons_cons _).trans hsublist)
      have hstart := hwell _ (hsublist.subset List.mem_cons_self) hheader
      exact (isPrinted_printed hlines hstart line hmem).2
    have hexpected : ∀ line ∈ (hunksOf raw).flatMap Hunk.expected, '\n' ∉ line := by
      intro line hline
      obtain ⟨hunk, hhunk, hmem⟩ := List.mem_flatMap.mp hline
      exact not_mem_expected (hraw.sublist (mem_hunksOf hhunk).2) line hmem
    apply (length_flatMap_printed (hunksOf raw)).2
    rw [← count_unlines hprinted, ← count_unlines hexpected, h]
  · intro h
    rw [flatMap_printed _ h]

end Counted

section Headless
variable {path unifiedDiff : List Char}

theorem countHeader_filter (raw : List (List Char)) :
    countHeader (raw.filter isContent) = countHeader raw := by
  have hcount : ∀ starts, starts ⊆ [' ', '+', '-'] →
      (raw.filter isContent).filter (startsWithAny starts) = raw.filter (startsWithAny starts) := by
    intro starts hstarts
    rw [List.filter_filter]
    apply List.filter_congr
    intro line _
    cases line with
    | nil => rfl
    | cons c rest =>
      by_cases hc : c ∈ starts
      · simp [startsWithAny, isContent, hc, by simpa using hstarts hc]
      · simp [startsWithAny, hc]
  unfold countHeader
  rw [hcount ['-', ' '] (by decide), hcount ['+', ' '] (by decide)]

/-- Content without any header becomes one hunk. -/
theorem normalize_headless (h : (splitInclusive '\n' unifiedDiff).any isHeader = false)
    {contents : List (List Char)}
    (hcontents : contents = (splitInclusive '\n' unifiedDiff).filter isContent)
    (hne : contents ≠ []) :
    normalizeUnifiedDiff path unifiedDiff =
      fileHeader path ++ unlines (countHeader contents :: contents.map lineText) := by
  have hlines : IsLines '\n' contents := by
    rw [hcontents]
    exact (isLines_splitInclusive '\n' unifiedDiff).sublist List.filter_sublist
  have hstarts : ∀ line ∈ contents, isContent line = true := by
    intro line hline
    rw [hcontents] at hline
    exact (List.mem_filter.mp hline).2
  have hhunk : ¬ contents.flatten.isEmpty = true := by
    obtain ⟨first, hfirst⟩ := List.exists_mem_of_ne_nil _ hne
    intro hempty
    have hnil := List.flatten_eq_nil_iff.mp (List.isEmpty_iff.mp hempty) first hfirst
    have hstart := hstarts first hfirst
    rw [hnil] at hstart
    cases hstart
  unfold normalizeUnifiedDiff extractUnifiedDiffHunks
  simp only [h, Bool.false_eq_true, if_false]
  rw [← hcontents, if_neg hhunk, ← countHeader_filter, ← hcontents]
  have hall : IsLines '\n' ((countHeader contents ++ ['\n']) :: contents) :=
    .line not_mem_countHeader hlines
  have htext : countHeader contents ++ '\n' :: contents.flatten =
      ((countHeader contents ++ ['\n']) :: contents).flatten := by
    rw [List.flatten_cons, List.append_assoc, List.singleton_append]
  have hheader : lineText (countHeader contents ++ ['\n']) = countHeader contents := by
    have hlast : (countHeader contents).getLast? = some '@' := by
      unfold countHeader
      rw [List.getLast?_append]
      rfl
    rw [lineText_line, hlast, if_neg (by decide)]
  apply concatenate_eq
  · rw [List.flatMap_singleton, htext, lines_flatten hall, List.map_cons, hheader]
  · rw [List.forall_mem_cons]
    constructor
    · exact ⟨rfl, not_mem_countHeader⟩
    · intro line hline
      obtain ⟨content, hcontent, rfl⟩ := List.mem_map.mp hline
      refine ⟨?_, not_mem_lineText (hlines.sublist (List.singleton_sublist.mpr hcontent))⟩
      rw [isContent_lineText (hstarts content hcontent), Bool.or_true]

end Headless

/-- Every header and content line is kept exactly when each hunk has a written header, content under
it, and no content after a marker; without any header, all content lines are one hunk. -/
theorem normalize_keeps_iff (path unifiedDiff : List Char) :
    (WellHeaded unifiedDiff → (splitInclusive '\n' unifiedDiff).any isHeader = true →
      (KeepsLines path unifiedDiff ↔
        ∀ hunk ∈ hunksOf (splitInclusive '\n' unifiedDiff), hunk.Intact)) ∧
      ((splitInclusive '\n' unifiedDiff).any isHeader = false →
        ∀ contents, contents = (splitInclusive '\n' unifiedDiff).filter isContent →
          contents ≠ [] → normalizeUnifiedDiff path unifiedDiff =
            fileHeader path ++ unlines (countHeader contents :: contents.map lineText)) :=
  ⟨keepsLines_iff, fun h _ hcontents hne => normalize_headless h hcontents hne⟩

/-- One changed line under a written header. -/
def changedLine : List Char := "@@ -1 +1 @@\n-a\n+b\n".toList

theorem normalize_keeps_changedLine :
    KeepsLines "f".toList changedLine ∧ normalizeUnifiedDiff "f".toList "-a\n+b\n".toList =
      fileHeader "f".toList ++ unlines ["@@ -1,1 +1,1 @@".toList, "-a".toList, "+b".toList] := by
  constructor
  · have hwell : WellHeaded changedLine := by
      unfold WellHeaded
      decide
    apply ((normalize_keeps_iff "f".toList changedLine).1 hwell (by decide)).mpr
    intro hunk hhunk
    obtain rfl := List.mem_singleton.mp hhunk
    exact ⟨by decide, by decide, by decide⟩
  · have hlines : countHeader ["-a\n".toList, "+b\n".toList] ::
        ["-a\n".toList, "+b\n".toList].map lineText =
          ["@@ -1,1 +1,1 @@".toList, "-a".toList, "+b".toList] := by decide
    rw [← hlines]
    exact (normalize_keeps_iff "f".toList "-a\n+b\n".toList).2 (by decide) _ (by decide)
      (by decide)

/-- A line after the marker of a missing newline is lost, and a bare header is joined to its line. -/
theorem marked_line_lost :
    ¬ KeepsLines "f".toList "@@ -1 +1 @@\n-a\n\\ No newline at end of file\n+b\n".toList ∧
      ¬ KeepsLines "f".toList "@@\n-a\n+b\n".toList := by
  unfold KeepsLines
  constructor <;> decide

end VibeKanban.Diff
