import Mathlib.Data.List.TakeWhile
import Mathlib.Data.String.Basic

/-! Text operations on the characters of a string: trimming, replacing, letter case and the
first occurrence of a tag. -/
namespace VibeKanban.Lib

/-- The characters with the Unicode property White_Space. -/
def isWhitespace (c : Char) : Bool :=
  let n := c.toNat
  (9 ≤ n && n ≤ 13) || n == 0x20 || n == 0x85 || n == 0xA0 || n == 0x1680 ||
    (0x2000 ≤ n && n ≤ 0x200A) || n == 0x2028 || n == 0x2029 || n == 0x202F || n == 0x205F ||
    n == 0x3000

def trimStart (s : List Char) : List Char := s.dropWhile isWhitespace

def trimChars (s : List Char) : List Char := (trimStart (trimStart s).reverse).reverse

def trim (s : String) : String := String.ofList (trimChars s.toList)

/-- Nothing but white space. -/
def isBlank (s : String) : Bool := (trimChars s.toList).isEmpty

theorem mem_trimStart {c : Char} {s : List Char} (hc : c ∈ s) (hspace : isWhitespace c = false) :
    c ∈ trimStart s := by
  rw [← List.takeWhile_append_dropWhile (p := isWhitespace) (l := s), List.mem_append] at hc
  obtain hc | hc := hc
  · rw [List.mem_takeWhile_imp hc] at hspace
    cases hspace
  · exact hc

theorem not_blank_of_mem {c : Char} {s : String} (hc : c ∈ s.toList)
    (hspace : isWhitespace c = false) : isBlank s = false := by
  have hmem : c ∈ trimChars s.toList := by
    rw [trimChars, List.mem_reverse]
    exact mem_trimStart (List.mem_reverse.mpr (mem_trimStart hc hspace)) hspace
  cases htrim : trimChars s.toList with
  | nil => rw [htrim] at hmem; cases hmem
  | cons _ _ => rw [isBlank, htrim]; rfl

def replaceChar (old new : Char) (s : String) : String :=
  String.ofList (s.toList.map fun c => if c = old then new else c)

def toAsciiUppercase (s : String) : String := String.ofList (s.toList.map Char.toUpper)

/-- What stands before and after the first occurrence of a tag. -/
def splitOnce (tag : List Char) : List Char → Option (List Char × List Char)
  | [] => if tag.isEmpty then some ([], []) else none
  | c :: rest =>
    if tag.isPrefixOf (c :: rest) then some ([], (c :: rest).drop tag.length)
    else (splitOnce tag rest).map fun p => (c :: p.1, p.2)

theorem splitOnce_some {tag s before after : List Char}
    (h : splitOnce tag s = some (before, after)) : s = before ++ tag ++ after := by
  induction s generalizing before with
  | nil =>
    simp only [splitOnce] at h
    split_ifs at h with ht
    obtain ⟨rfl, rfl⟩ := Prod.mk.inj (Option.some.inj h)
    simp [List.isEmpty_iff.mp ht]
  | cons c rest ih =>
    simp only [splitOnce] at h
    split_ifs at h with ht
    · obtain ⟨rfl, rfl⟩ := Prod.mk.inj (Option.some.inj h)
      obtain ⟨t, ht⟩ := List.isPrefixOf_iff_prefix.mp ht
      rw [← ht]
      simp
    · obtain ⟨⟨b, a⟩, hsplit, heq⟩ := Option.map_eq_some_iff.mp h
      obtain ⟨rfl, rfl⟩ := Prod.mk.inj heq
      rw [ih hsplit]
      rfl

theorem splitOnce_none {tag s : List Char} (h : splitOnce tag s = none) : ¬ tag <:+: s := by
  induction s with
  | nil =>
    simp only [splitOnce] at h
    split_ifs at h with ht
    rw [List.infix_nil]
    rintro rfl
    exact ht rfl
  | cons c rest ih =>
    simp only [splitOnce] at h
    split_ifs at h with ht
    rw [List.infix_cons_iff]
    rintro (hp | hi)
    · exact ht (List.isPrefixOf_iff_prefix.mpr hp)
    · exact ih (by simpa using h) hi

/-- The text before the first occurrence holds no occurrence of its own. -/
theorem splitOnce_before {tag s before after : List Char} (hne : tag ≠ [])
    (h : splitOnce tag s = some (before, after)) : ¬ tag <:+: before := by
  induction s generalizing before with
  | nil =>
    simp only [splitOnce] at h
    split_ifs at h with ht
    exact absurd (List.isEmpty_iff.mp ht) hne
  | cons c rest ih =>
    simp only [splitOnce] at h
    split_ifs at h with ht
    · obtain ⟨rfl, rfl⟩ := Prod.mk.inj (Option.some.inj h)
      rw [List.infix_nil]
      exact hne
    · obtain ⟨⟨b, a⟩, hsplit, heq⟩ := Option.map_eq_some_iff.mp h
      obtain ⟨rfl, rfl⟩ := Prod.mk.inj heq
      rw [List.infix_cons_iff]
      rintro (hp | hi)
      · refine ht (List.isPrefixOf_iff_prefix.mpr (hp.trans ?_))
        rw [splitOnce_some hsplit, List.append_assoc]
        exact ⟨tag ++ a, rfl⟩
      · exact ih hsplit hi

/-- A tag with no earlier occurrence splits there. -/
theorem splitOnce_eq {tag before after : List Char}
    (h : ∀ s, s <:+ before → s ≠ [] → ¬ tag <+: s ++ (tag ++ after)) :
    splitOnce tag (before ++ (tag ++ after)) = some (before, after) := by
  induction before with
  | nil =>
    rw [List.nil_append]
    cases htag : tag with
    | nil => cases after <;> rfl
    | cons c rest =>
      have hprefix : (c :: rest).isPrefixOf (c :: (rest ++ after)) = true :=
        List.isPrefixOf_iff_prefix.mpr (List.prefix_append (c :: rest) after)
      rw [List.cons_append, splitOnce, if_pos hprefix, ← List.cons_append, List.drop_left]
  | cons c rest ih =>
    have hnot : ¬ tag.isPrefixOf (c :: (rest ++ (tag ++ after))) = true := fun hprefix =>
      h (c :: rest) List.suffix_rfl (List.cons_ne_nil c rest) (List.isPrefixOf_iff_prefix.mp hprefix)
    rw [List.cons_append, splitOnce, if_neg hnot,
      ih fun s hs => h s (hs.trans (List.suffix_cons c rest)), Option.map_some]

/-- The split is at the first occurrence. -/
theorem splitOnce_least {tag s before after x y : List Char}
    (h : splitOnce tag s = some (before, after)) (hs : s = x ++ (tag ++ y)) :
    before.length ≤ x.length := by
  induction s generalizing before after x with
  | nil =>
    simp only [splitOnce] at h
    split_ifs at h with ht
    obtain ⟨rfl, -⟩ := Prod.mk.inj (Option.some.inj h)
    exact Nat.zero_le x.length
  | cons c rest ih =>
    simp only [splitOnce] at h
    split_ifs at h with ht
    · obtain ⟨rfl, -⟩ := Prod.mk.inj (Option.some.inj h)
      exact Nat.zero_le x.length
    · obtain ⟨⟨b, a⟩, hsplit, heq⟩ := Option.map_eq_some_iff.mp h
      obtain ⟨rfl, -⟩ := Prod.mk.inj heq
      cases x with
      | nil =>
        refine absurd (List.isPrefixOf_iff_prefix.mpr ?_) ht
        rw [hs, List.nil_append]
        exact List.prefix_append tag y
      | cons d x =>
        have hrest : rest = x ++ (tag ++ y) := (List.cons.inj hs).2
        exact Nat.succ_le_succ (ih hsplit hrest)

section Occurrence
variable {α : Type*} {c : α} {t u x y z w : List α}

/-- A tag whose first element is not in it again ends before another one that begins alike. -/
theorem occurrence_apart (hc : c ∉ t) (h : x ++ (c :: t) ++ y = z ++ (c :: u) ++ w)
    (hlt : x.length < z.length) :
    ∃ m, z = x ++ (c :: t) ++ m ∧ y = m ++ (c :: u) ++ w := by
  rw [List.append_assoc, List.append_assoc] at h
  rcases List.append_eq_append_iff.mp h with ⟨m, hz, hm⟩ | ⟨m, hx, -⟩
  · cases m with
    | nil =>
      rw [hz, List.append_nil] at hlt
      exact absurd hlt (lt_irrefl _)
    | cons d m =>
      obtain ⟨rfl, htail⟩ := List.cons.inj hm
      rcases List.append_eq_append_iff.mp htail with ⟨k, hk, hy⟩ | ⟨k, hk, hu⟩
      · refine ⟨k, ?_, ?_⟩
        · rw [hz, hk]
          simp
        · rw [hy]
          simp
      · cases k with
        | nil =>
          refine ⟨[], ?_, ?_⟩
          · rw [hz, hk]
            simp
          · simpa using hu.symm
        | cons e k =>
          obtain ⟨rfl, -⟩ := List.cons.inj hu
          rw [hk] at hc
          exact absurd (List.mem_append_right _ List.mem_cons_self) hc
  · rw [hx, List.length_append] at hlt
    omega

theorem occurrence_same (h : x ++ (c :: t) ++ y = z ++ (c :: u) ++ w) (heq : x.length = z.length) :
    x = z ∧ t ++ y = u ++ w := by
  rw [List.append_assoc, List.append_assoc] at h
  obtain ⟨hx, htail⟩ := List.append_inj h heq
  exact ⟨hx, (List.cons.inj htail).2⟩

end Occurrence

/-- The first occurrence of a tag whose first character is not in it again. -/
theorem splitOnce_first {c : Char} {t before rest : List Char} (hc : c ∉ t)
    (h : ¬ (c :: t) <:+: before) :
    splitOnce (c :: t) (before ++ (c :: t) ++ rest) = some (before, rest) := by
  cases hsplit : splitOnce (c :: t) (before ++ (c :: t) ++ rest) with
  | none => exact absurd ⟨before, rest, rfl⟩ (splitOnce_none hsplit)
  | some found =>
    obtain ⟨front, behind⟩ := found
    have htext := splitOnce_some hsplit
    have hfront := splitOnce_before (List.cons_ne_nil c t) hsplit
    rcases lt_trichotomy front.length before.length with hlt | heq | hgt
    · obtain ⟨m, hm, -⟩ := occurrence_apart hc htext.symm hlt
      rw [hm] at h
      exact absurd ⟨front, m, rfl⟩ h
    · obtain ⟨rfl, htail⟩ := occurrence_same htext.symm heq
      rw [List.append_cancel_left htail]
    · obtain ⟨m, hm, -⟩ := occurrence_apart hc htext hgt
      rw [hm] at hfront
      exact absurd ⟨before, m, rfl⟩ hfront

section Separator
variable {α : Type*} {sep : α} {a b x y : List α}

/-- A first field without the separator is determined by the whole. -/
theorem first_field_inj (ha : sep ∉ a) (hb : sep ∉ b) (h : a ++ sep :: x = b ++ sep :: y) :
    a = b ∧ x = y := by
  induction a generalizing b with
  | nil =>
    cases b with
    | nil => exact ⟨rfl, (List.cons.inj h).2⟩
    | cons d rest => exact absurd ((List.cons.inj h).1 ▸ List.mem_cons_self) hb
  | cons c rest ih =>
    cases b with
    | nil => exact absurd ((List.cons.inj h).1 ▸ List.mem_cons_self) ha
    | cons d rest' =>
      obtain ⟨rfl, htail⟩ := List.cons.inj h
      obtain ⟨rfl, rfl⟩ := ih (fun hc => ha (List.mem_cons_of_mem _ hc))
        (fun hc => hb (List.mem_cons_of_mem _ hc)) htail
      exact ⟨rfl, rfl⟩

/-- So is a last field. -/
theorem last_field_inj (ha : sep ∉ a) (hb : sep ∉ b) (h : x ++ sep :: a = y ++ sep :: b) :
    x = y ∧ a = b := by
  have hreverse : a.reverse ++ sep :: x.reverse = b.reverse ++ sep :: y.reverse := by
    simpa using congrArg List.reverse h
  obtain ⟨hfield, hrest⟩ := first_field_inj (fun hc => ha (List.mem_reverse.mp hc))
    (fun hc => hb (List.mem_reverse.mp hc)) hreverse
  exact ⟨List.reverse_injective hrest, List.reverse_injective hfield⟩

end Separator

end VibeKanban.Lib
