import Mathlib.Data.List.Infix
import Mathlib.Data.List.Basic

/-! Substitution of patterns in a text, from left to right and without looking into what was put in, and
when one substitution after another does the same. -/
namespace VibeKanban.Lib

variable {α : Type} [DecidableEq α]

/-- The text with each occurrence of a pattern replaced by its value, after `skip` elements of an
occurrence that was replaced. -/
def substituteFrom (subs : List (List α × List α)) : ℕ → List α → List α
  | _, [] => []
  | skip + 1, _ :: rest => substituteFrom subs skip rest
  | 0, c :: rest =>
    match subs.find? fun sub => sub.1.isPrefixOf (c :: rest) with
    | some sub => sub.2 ++ substituteFrom subs (sub.1.length - 1) rest
    | none => c :: substituteFrom subs 0 rest

def substitute (subs : List (List α × List α)) (text : List α) : List α := substituteFrom subs 0 text

/-- Every occurrence of one pattern. -/
def replaceAll (pattern value : List α) (text : List α) : List α := substitute [(pattern, value)] text

/-- The pieces of a text between the occurrences of a pattern; `skip` elements of an occurrence are
left, and `piece` is what has been read of a piece, reversed. -/
def piecesFrom (pattern : List α) : ℕ → List α → List α → List (List α)
  | _, piece, [] => [piece.reverse]
  | skip + 1, piece, _ :: rest => piecesFrom pattern skip piece rest
  | 0, piece, c :: rest =>
    if pattern.isPrefixOf (c :: rest) then
      piece.reverse :: piecesFrom pattern (pattern.length - 1) [] rest
    else piecesFrom pattern 0 (c :: piece) rest

def pieces (pattern text : List α) : List (List α) := piecesFrom pattern 0 [] text

section Scan
variable {subs : List (List α × List α)} {x y : List α}

/-- No occurrence of a pattern begins in a text and ends behind it. -/
def Barrier (subs : List (List α × List α)) (x y : List α) : Prop :=
  ∀ s, s <:+ x → s ≠ [] → ∀ sub ∈ subs, sub.1 <+: s ++ y → sub.1 <+: s

theorem find?_congr_mem {β : Type} {p q : β → Bool} {l : List β} (h : ∀ b ∈ l, p b = q b) :
    l.find? p = l.find? q := by
  induction l with
  | nil => rfl
  | cons b rest ih =>
    obtain ⟨hb, hrest⟩ := List.forall_mem_cons.mp h
    rw [List.find?_cons, List.find?_cons, hb, ih hrest]

theorem substituteFrom_append {skip : ℕ} (hskip : skip ≤ x.length) (h : Barrier subs x y) :
    substituteFrom subs skip (x ++ y) = substituteFrom subs skip x ++ substitute subs y := by
  induction x generalizing skip with
  | nil =>
    obtain rfl : skip = 0 := Nat.le_zero.mp hskip
    rfl
  | cons c x ih =>
    have hrest : Barrier subs x y := fun s hs => h s (hs.trans (List.suffix_cons c x))
    cases skip with
    | succ skip => exact ih (Nat.le_of_succ_le_succ hskip) hrest
    | zero =>
      have hfind : (subs.find? fun sub => sub.1.isPrefixOf (c :: (x ++ y))) =
          subs.find? fun sub => sub.1.isPrefixOf (c :: x) := by
        refine find?_congr_mem fun sub hsub => ?_
        rw [Bool.eq_iff_iff, List.isPrefixOf_iff_prefix, List.isPrefixOf_iff_prefix]
        exact ⟨h (c :: x) List.suffix_rfl (List.cons_ne_nil c x) sub hsub,
          fun hprefix => hprefix.trans (List.prefix_append (c :: x) y)⟩
      rw [List.cons_append, substituteFrom, substituteFrom, hfind]
      cases hfound : subs.find? fun sub => sub.1.isPrefixOf (c :: x) with
      | none =>
        simp only
        rw [ih (Nat.zero_le _) hrest, List.cons_append]
      | some sub =>
        have hprefix : sub.1 <+: c :: x :=
          List.isPrefixOf_iff_prefix.mp (by simpa using List.find?_some hfound)
        have hlength := hprefix.length_le
        rw [List.length_cons] at hlength
        simp only
        rw [ih (by omega) hrest, List.append_assoc]

theorem substitute_append (h : Barrier subs x y) :
    substitute subs (x ++ y) = substitute subs x ++ substitute subs y :=
  substituteFrom_append (Nat.zero_le _) h

theorem substituteFrom_skip : substituteFrom subs x.length (x ++ y) = substitute subs y := by
  induction x with
  | nil => rfl
  | cons c x ih => exact ih

/-- A pattern at the beginning gives way to its value. -/
theorem substitute_pattern {pattern value : List α} (hne : pattern ≠ [])
    (hfind : (subs.find? fun sub => sub.1.isPrefixOf (pattern ++ y)) = some (pattern, value)) :
    substitute subs (pattern ++ y) = value ++ substitute subs y := by
  cases pattern with
  | nil => exact absurd rfl hne
  | cons c rest =>
    rw [List.cons_append] at hfind
    rw [substitute, List.cons_append, substituteFrom, hfind]
    simp only [List.length_cons, Nat.add_sub_cancel]
    rw [substituteFrom_skip]

/-- A text without patterns stays. -/
theorem substitute_free (h : ∀ sub ∈ subs, ¬ sub.1 <:+: x) : substitute subs x = x := by
  induction x with
  | nil => rfl
  | cons c x ih =>
    have hnone : (subs.find? fun sub => sub.1.isPrefixOf (c :: x)) = none := by
      refine List.find?_eq_none.mpr fun sub hsub hprefix => ?_
      exact h sub hsub (List.isPrefixOf_iff_prefix.mp hprefix).isInfix
    have hrest : ∀ sub ∈ subs, ¬ sub.1 <:+: x :=
      fun sub hsub hwithin => h sub hsub (hwithin.trans (List.suffix_cons c x).isInfix)
    have htail := ih hrest
    rw [substitute] at htail
    rw [substitute, substituteFrom, hnone]
    simp only
    rw [htail]

omit [DecidableEq α] in
theorem find?_perm {β : Type} {p : β → Bool} {l l' : List β} (hperm : l.Perm l')
    (hone : ∀ a ∈ l, ∀ b ∈ l, p a → p b → a = b) : l.find? p = l'.find? p := by
  cases hl : l.find? p with
  | none =>
    have hnone : ∀ b ∈ l', ¬ p b = true :=
      fun b hb => List.find?_eq_none.mp hl b (hperm.mem_iff.mpr hb)
    rw [List.find?_eq_none.mpr hnone]
  | some a =>
    cases hl' : l'.find? p with
    | none =>
      have hnot := List.find?_eq_none.mp hl' a (hperm.mem_iff.mp (List.mem_of_find?_eq_some hl))
      exact absurd (List.find?_some hl) hnot
    | some b =>
      have hb : b ∈ l := hperm.mem_iff.mpr (List.mem_of_find?_eq_some hl')
      rw [hone a (List.mem_of_find?_eq_some hl) b hb (List.find?_some hl) (List.find?_some hl')]

/-- The order of the patterns is of no account where no two of them begin alike. -/
theorem substitute_perm {order : List (List α × List α)} (hperm : subs.Perm order)
    (hapart : ∀ a ∈ subs, ∀ b ∈ subs, a.1 <+: b.1 → a = b) (text : List α) :
    substitute subs text = substitute order text := by
  have hfrom (skip : ℕ) : substituteFrom subs skip text = substituteFrom order skip text := by
    induction text generalizing skip with
    | nil =>
      cases skip with
      | zero => rfl
      | succ skip => rfl
    | cons c rest ih =>
      cases skip with
      | succ skip => exact ih skip
      | zero =>
        have hfind : (subs.find? fun sub => sub.1.isPrefixOf (c :: rest)) =
            order.find? fun sub => sub.1.isPrefixOf (c :: rest) := by
          refine find?_perm hperm fun a ha b hb hprefix hprefix' => ?_
          rw [List.isPrefixOf_iff_prefix] at hprefix hprefix'
          rcases List.prefix_or_prefix_of_prefix hprefix hprefix' with h | h
          · exact hapart a ha b hb h
          · exact (hapart b hb a ha h).symm
        rw [substituteFrom, substituteFrom, hfind]
        simp only [ih]
  exact hfrom 0

/-- A pattern that a text does not hold may be left out. -/
theorem substitute_concat_free {pattern value : List α} (h : ¬ pattern <:+: x) :
    substitute (subs ++ [(pattern, value)]) x = substitute subs x := by
  have hfrom (skip : ℕ) : substituteFrom (subs ++ [(pattern, value)]) skip x =
      substituteFrom subs skip x := by
    induction x generalizing skip with
    | nil =>
      cases skip with
      | zero => rfl
      | succ skip => rfl
    | cons c x ih =>
      have hrest : ¬ pattern <:+: x := fun hwithin => h (hwithin.trans (List.suffix_cons c x).isInfix)
      cases skip with
      | succ skip => exact ih hrest skip
      | zero =>
        have hnot : pattern.isPrefixOf (c :: x) = false := by
          by_contra hprefix
          exact h (List.isPrefixOf_iff_prefix.mp (by simpa using hprefix)).isInfix
        have hfind : ((subs ++ [(pattern, value)]).find? fun sub => sub.1.isPrefixOf (c :: x)) =
            subs.find? fun sub => sub.1.isPrefixOf (c :: x) := by
          rw [List.find?_append]
          simp [hnot]
        rw [substituteFrom, substituteFrom, hfind]
        cases subs.find? fun sub => sub.1.isPrefixOf (c :: x) with
        | none =>
          simp only
          rw [ih hrest]
        | some sub =>
          simp only
          rw [ih hrest]
  exact hfrom 0

end Scan

section Patterns
variable {pattern value : List α} {subs : List (List α × List α)} {x y : List α}

/-- No end of `p`, but for `p` itself, goes on as `q` does or holds it. -/
def Clear (p q : List α) : Prop :=
  ∀ s, s <:+ p → s ≠ [] → s ≠ p → ¬ s <+: q ∧ ¬ q <+: s

/-- No end of `q` goes on as `p` does or holds it. -/
def Foreign (p q : List α) : Prop := ∀ s, s <:+ q → s ≠ [] → ¬ s <+: p ∧ ¬ p <+: s

omit [DecidableEq α] in
theorem clear_iff {p q : List α} :
    Clear p q ↔ ∀ s ∈ p.tails, s ≠ [] → s ≠ p → ¬ s <+: q ∧ ¬ q <+: s := by
  simp only [Clear, List.mem_tails]

omit [DecidableEq α] in
theorem foreign_iff {p q : List α} :
    Foreign p q ↔ ∀ s ∈ q.tails, s ≠ [] → ¬ s <+: p ∧ ¬ p <+: s := by
  simp only [Foreign, List.mem_tails]

instance (p q : List α) : Decidable (Clear p q) := decidable_of_iff _ clear_iff.symm

instance (p q : List α) : Decidable (Foreign p q) := decidable_of_iff _ foreign_iff.symm

omit [DecidableEq α] in
theorem barrier_of_clear (h : ∀ sub ∈ subs, Clear sub.1 pattern) : Barrier subs x (pattern ++ y) := by
  intro s _ hne sub hsub hprefix
  rcases List.prefix_or_prefix_of_prefix hprefix (List.prefix_append s (pattern ++ y)) with hwithin | hover
  · exact hwithin
  · obtain ⟨rest, hrest⟩ := hover
    rw [← hrest] at hprefix
    have htail : rest <+: pattern ++ y := (List.prefix_append_right_inj s).mp hprefix
    by_cases hnil : rest = []
    · rw [hnil, List.append_nil] at hrest
      exact hrest ▸ List.prefix_rfl
    · have hproper : rest ≠ sub.1 := by
        intro hsame
        rw [hsame] at hrest
        exact hne (List.append_left_eq_self.mp hrest)
      obtain ⟨hleft, hright⟩ := h sub hsub rest ⟨s, hrest⟩ hnil hproper
      rcases List.prefix_or_prefix_of_prefix htail (List.prefix_append pattern y) with hshort | hlong
      · exact absurd hshort hleft
      · exact absurd hlong hright

omit [DecidableEq α] in
theorem barrier_of_foreign (h : ∀ sub ∈ subs, Foreign sub.1 pattern) : Barrier subs pattern y := by
  intro s hs hne sub hsub hprefix
  obtain ⟨hleft, hright⟩ := h sub hsub s hs hne
  rcases List.prefix_or_prefix_of_prefix hprefix (List.prefix_append s y) with hwithin | hover
  · exact hwithin
  · exact absurd hover hleft

/-- An occurrence of another pattern stays, and what is before and behind it is substituted apart. -/
theorem substitute_foreign (hne : pattern ≠ []) (hclear : ∀ sub ∈ subs, Clear sub.1 pattern)
    (hforeign : ∀ sub ∈ subs, Foreign sub.1 pattern) :
    substitute subs (x ++ (pattern ++ y)) =
      substitute subs x ++ (pattern ++ substitute subs y) := by
  have hfree : substitute subs pattern = pattern := by
    refine substitute_free fun sub hsub hwithin => ?_
    obtain ⟨before, after, hsame⟩ := hwithin
    have hsuffix : sub.1 ++ after <:+ pattern := ⟨before, by rw [← hsame, List.append_assoc]⟩
    by_cases hnil : sub.1 ++ after = []
    · have hempty : sub.1 = [] := (List.append_eq_nil_iff.mp hnil).1
      exact (hforeign sub hsub pattern List.suffix_rfl hne).2 (hempty ▸ List.nil_prefix)
    · exact (hforeign sub hsub _ hsuffix hnil).2 (List.prefix_append _ _)
  rw [substitute_append (barrier_of_clear hclear), substitute_append (barrier_of_foreign hforeign), hfree]

/-- An occurrence of the last pattern gives way to its value. -/
theorem substitute_concat (hne : pattern ≠ []) (hself : Clear pattern pattern)
    (hclear : ∀ sub ∈ subs, Clear sub.1 pattern) (hforeign : ∀ sub ∈ subs, Foreign sub.1 pattern) :
    substitute (subs ++ [(pattern, value)]) (x ++ (pattern ++ y)) =
      substitute (subs ++ [(pattern, value)]) x ++
        (value ++ substitute (subs ++ [(pattern, value)]) y) := by
  have hall : ∀ sub ∈ subs ++ [(pattern, value)], Clear sub.1 pattern := by
    intro sub hsub
    rcases List.mem_append.mp hsub with hold | hnew
    · exact hclear sub hold
    · rw [List.mem_singleton.mp hnew]
      exact hself
  have hnone : (subs.find? fun sub => sub.1.isPrefixOf (pattern ++ y)) = none := by
    refine List.find?_eq_none.mpr fun sub hsub hprefix => ?_
    obtain ⟨hleft, hright⟩ := hforeign sub hsub pattern List.suffix_rfl hne
    rcases List.prefix_or_prefix_of_prefix (List.isPrefixOf_iff_prefix.mp hprefix) (List.prefix_append pattern y) with h | h
    · exact hright h
    · exact hleft h
  rw [substitute_append (barrier_of_clear hall), substitute_pattern hne]
  rw [List.find?_append, hnone]
  simp

theorem replaceAll_split (hne : pattern ≠ []) (hself : Clear pattern pattern) :
    replaceAll pattern value (x ++ (pattern ++ y)) =
      replaceAll pattern value x ++ (value ++ replaceAll pattern value y) :=
  @substitute_concat α _ pattern value [] x y hne hself (by simp) (by simp)

/-- The first occurrence of a pattern. -/
theorem first_occurrence (hne : pattern ≠ []) (h : pattern <:+: x) :
    ∃ before after, x = before ++ (pattern ++ after) ∧ ¬ pattern <:+: before := by
  induction x with
  | nil => exact absurd (List.infix_nil.mp h) hne
  | cons c x ih =>
    by_cases hprefix : pattern <+: c :: x
    · obtain ⟨after, hafter⟩ := hprefix
      exact ⟨[], after, hafter.symm, fun hwithin => hne (List.infix_nil.mp hwithin)⟩
    · rcases List.infix_cons_iff.mp h with hnow | hlater
      · exact absurd hnow hprefix
      · obtain ⟨before, after, rfl, hfree⟩ := ih hlater
        refine ⟨c :: before, after, rfl, fun hwithin => ?_⟩
        rcases List.infix_cons_iff.mp hwithin with hnow | hin
        · exact hprefix (hnow.trans (List.prefix_append (c :: before) (pattern ++ after)))
        · exact hfree hin

/-- Replacing makes a text shorter, or longer, as the value is shorter or longer than the pattern. -/
theorem replaceAll_length (hne : pattern ≠ []) (hself : Clear pattern pattern) (x : List α) :
    (value.length ≤ pattern.length → (replaceAll pattern value x).length ≤ x.length) ∧
      (pattern.length ≤ value.length → x.length ≤ (replaceAll pattern value x).length) := by
  induction hlength : x.length using Nat.strong_induction_on generalizing x with
  | _ n ih =>
    by_cases hwithin : pattern <:+: x
    · obtain ⟨before, after, rfl, hfree⟩ := first_occurrence hne hwithin
      have hbefore : replaceAll pattern value before = before := substitute_free (by simpa using hfree)
      have hpositive : 0 < pattern.length := List.length_pos_of_ne_nil hne
      simp only [List.length_append] at hlength
      obtain ⟨hshort, hlong⟩ := ih after.length (by omega) after rfl
      rw [replaceAll_split hne hself, hbefore]
      simp only [List.length_append]
      constructor
      · intro hle
        have hafter := hshort hle
        omega
      · intro hle
        have hafter := hlong hle
        omega
    · have hsame : replaceAll pattern value x = x := substitute_free (by simpa using hwithin)
      rw [hsame, hlength]
      exact ⟨fun _ => le_rfl, fun _ => le_rfl⟩

/-- A text stays when it does not hold the pattern, or when the pattern is its own value. -/
theorem replaceAll_eq_self_iff (hne : pattern ≠ []) (hself : Clear pattern pattern) :
    replaceAll pattern value x = x ↔ ¬ pattern <:+: x ∨ value = pattern := by
  constructor
  · intro hsame
    by_contra hnot
    push Not at hnot
    obtain ⟨hwithin, hvalue⟩ := hnot
    obtain ⟨before, after, rfl, hfree⟩ := first_occurrence hne hwithin
    have hbefore : replaceAll pattern value before = before := substitute_free (by simpa using hfree)
    rw [replaceAll_split hne hself, hbefore, List.append_cancel_left_eq] at hsame
    obtain ⟨hshort, hlong⟩ := @replaceAll_length α _ pattern value hne hself after
    have hlength := congrArg List.length hsame
    simp only [List.length_append] at hlength
    have heq : value.length = pattern.length := by
      rcases Nat.le_total value.length pattern.length with hle | hle
      · have hafter := hshort hle
        omega
      · have hafter := hlong hle
        omega
    exact hvalue (List.append_inj hsame heq).1
  · rintro (hfree | rfl)
    · exact substitute_free (by simpa using hfree)
    · induction hlength : x.length using Nat.strong_induction_on generalizing x with
      | _ n ih =>
        by_cases hwithin : value <:+: x
        · obtain ⟨before, after, rfl, hfree⟩ := first_occurrence hne hwithin
          have hpositive : 0 < value.length := List.length_pos_of_ne_nil hne
          simp only [List.length_append] at hlength
          rw [replaceAll_split hne hself, ih before.length (by omega) rfl,
            ih after.length (by omega) rfl]
        · exact substitute_free (by simpa using hwithin)

theorem piecesFrom_free {piece : List α} (h : ¬ pattern <:+: x) :
    piecesFrom pattern 0 piece x = [piece.reverse ++ x] := by
  induction x generalizing piece with
  | nil => rw [piecesFrom, List.append_nil]
  | cons c x ih =>
    have hnot : ¬ pattern.isPrefixOf (c :: x) = true :=
      fun hprefix => h (List.isPrefixOf_iff_prefix.mp hprefix).isInfix
    have hrest : ¬ pattern <:+: x := fun hwithin => h (hwithin.trans (List.suffix_cons c x).isInfix)
    rw [piecesFrom, if_neg hnot, ih hrest, List.reverse_cons, List.append_assoc, List.singleton_append]

theorem pieces_free (h : ¬ pattern <:+: x) : pieces pattern x = [x] := piecesFrom_free h

theorem piecesFrom_skip {piece : List α} :
    piecesFrom pattern x.length piece (x ++ y) = piecesFrom pattern 0 piece y := by
  induction x with
  | nil => rfl
  | cons c x ih => exact ih

/-- The piece before the first occurrence, and those behind it. -/
theorem pieces_split (hne : pattern ≠ []) (hself : Clear pattern pattern) (hfree : ¬ pattern <:+: x) :
    pieces pattern (x ++ (pattern ++ y)) = x :: pieces pattern y := by
  have hfrom (piece : List α) : piecesFrom pattern 0 piece (x ++ (pattern ++ y)) =
      (piece.reverse ++ x) :: pieces pattern y := by
    induction x generalizing piece with
    | nil =>
      have hprefix : pattern.isPrefixOf (pattern ++ y) = true :=
        List.isPrefixOf_iff_prefix.mpr (List.prefix_append pattern y)
      cases hpattern : pattern with
      | nil => exact absurd hpattern hne
      | cons c rest =>
        rw [hpattern, List.cons_append] at hprefix
        rw [List.nil_append, List.cons_append, piecesFrom, if_pos hprefix, List.length_cons,
          Nat.add_sub_cancel, piecesFrom_skip, List.append_nil, pieces]
    | cons c x ih =>
      have hrest : ¬ pattern <:+: x :=
        fun hwithin => hfree (hwithin.trans (List.suffix_cons c x).isInfix)
      have hbarrier : Barrier [(pattern, pattern)] (c :: x) (pattern ++ y) :=
        barrier_of_clear (by simpa using hself)
      have hnot : ¬ pattern.isPrefixOf (c :: (x ++ (pattern ++ y))) = true := by
        intro hprefix
        have hwithin := hbarrier (c :: x) List.suffix_rfl (List.cons_ne_nil c x) (pattern, pattern)
          List.mem_cons_self (List.isPrefixOf_iff_prefix.mp hprefix)
        exact hfree hwithin.isInfix
      rw [List.cons_append, piecesFrom, if_neg hnot, ih hrest, List.reverse_cons, List.append_assoc,
        List.singleton_append]
  exact hfrom []

/-- One more pattern after the others is the same as all at once exactly when no piece of the text
between its occurrences comes to hold it through the others, or it is its own value. -/
theorem replaceAll_substitute_iff (hne : pattern ≠ []) (hself : Clear pattern pattern)
    (hclear : ∀ sub ∈ subs, Clear sub.1 pattern) (hforeign : ∀ sub ∈ subs, Foreign sub.1 pattern)
    (text : List α) :
    replaceAll pattern value (substitute subs text) = substitute (subs ++ [(pattern, value)]) text ↔
      (∀ piece ∈ pieces pattern text, ¬ pattern <:+: substitute subs piece) ∨ value = pattern := by
  suffices hkey : ((value.length ≤ pattern.length →
        (replaceAll pattern value (substitute subs text)).length ≤
          (substitute (subs ++ [(pattern, value)]) text).length) ∧
      (pattern.length ≤ value.length →
        (substitute (subs ++ [(pattern, value)]) text).length ≤
          (replaceAll pattern value (substitute subs text)).length)) ∧
      (replaceAll pattern value (substitute subs text) =
          substitute (subs ++ [(pattern, value)]) text ↔
        ∀ piece ∈ pieces pattern text,
          replaceAll pattern value (substitute subs piece) = substitute subs piece) by
    rw [hkey.2]
    simp only [replaceAll_eq_self_iff hne hself]
    constructor
    · intro h
      by_cases hvalue : value = pattern
      · exact .inr hvalue
      · exact .inl fun piece hpiece => (h piece hpiece).resolve_right hvalue
    · rintro (h | h) piece hpiece
      · exact .inl (h piece hpiece)
      · exact .inr h
  induction hlength : text.length using Nat.strong_induction_on generalizing text with
  | _ n ih =>
    by_cases hwithin : pattern <:+: text
    · obtain ⟨before, after, rfl, hfree⟩ := first_occurrence hne hwithin
      have hpositive : 0 < pattern.length := List.length_pos_of_ne_nil hne
      simp only [List.length_append] at hlength
      obtain ⟨⟨hshort, hlong⟩, hiff⟩ := ih after.length (by omega) after rfl
      obtain ⟨hbeforeShort, hbeforeLong⟩ :=
        @replaceAll_length α _ pattern value hne hself (substitute subs before)
      rw [substitute_foreign hne hclear hforeign, replaceAll_split hne hself,
        substitute_concat hne hself hclear hforeign, substitute_concat_free hfree,
        pieces_split hne hself hfree, List.forall_mem_cons, ← hiff]
      simp only [List.length_append]
      refine ⟨⟨fun hle => ?_, fun hle => ?_⟩, ?_, ?_⟩
      · have hfirst := hbeforeShort hle
        have hrest := hshort hle
        omega
      · have hfirst := hbeforeLong hle
        have hrest := hlong hle
        omega
      · -- both parts are shorter, or both longer, so equal sums are equal parts
        intro hsame
        have hsum := congrArg List.length hsame
        simp only [List.length_append] at hsum
        have hfirst : (replaceAll pattern value (substitute subs before)).length =
            (substitute subs before).length := by
          rcases Nat.le_total value.length pattern.length with hle | hle
          · have h := hbeforeShort hle
            have h' := hshort hle
            omega
          · have h := hbeforeLong hle
            have h' := hlong hle
            omega
        obtain ⟨hbefore, hrest⟩ := List.append_inj hsame hfirst
        exact ⟨hbefore, List.append_cancel_left hrest⟩
      · rintro ⟨hbefore, hrest⟩
        rw [hbefore, hrest]
    · have hsame : substitute (subs ++ [(pattern, value)]) text = substitute subs text :=
        substitute_concat_free hwithin
      rw [hsame, pieces_free hwithin]
      exact ⟨replaceAll_length hne hself _, by simp⟩

/-- Any occurrence of the pattern divides the pieces. -/
theorem pieces_append (hne : pattern ≠ []) (hself : Clear pattern pattern) (x y : List α) :
    pieces pattern (x ++ (pattern ++ y)) = pieces pattern x ++ pieces pattern y := by
  induction hlength : x.length using Nat.strong_induction_on generalizing x with
  | _ n ih =>
    by_cases hwithin : pattern <:+: x
    · obtain ⟨before, after, rfl, hfree⟩ := first_occurrence hne hwithin
      have hpositive : 0 < pattern.length := List.length_pos_of_ne_nil hne
      simp only [List.length_append] at hlength
      rw [pieces_split hne hself hfree, List.append_assoc, List.append_assoc,
        pieces_split hne hself hfree, ih after.length (by omega) after rfl, List.cons_append]
    · rw [pieces_split hne hself hwithin, pieces_free hwithin, List.singleton_append]

theorem pieces_ne_nil (hne : pattern ≠ []) (hself : Clear pattern pattern) (x : List α) :
    pieces pattern x ≠ [] := by
  by_cases hwithin : pattern <:+: x
  · obtain ⟨before, after, rfl, hfree⟩ := first_occurrence hne hwithin
    rw [pieces_split hne hself hfree]
    exact List.cons_ne_nil before (pieces pattern after)
  · rw [pieces_free hwithin]
    exact List.cons_ne_nil x []

theorem mem_pieces_free (hne : pattern ≠ []) (hself : Clear pattern pattern) {x piece : List α}
    (h : piece ∈ pieces pattern x) : ¬ pattern <:+: piece := by
  induction hlength : x.length using Nat.strong_induction_on generalizing x with
  | _ n ih =>
    by_cases hwithin : pattern <:+: x
    · obtain ⟨before, after, rfl, hfree⟩ := first_occurrence hne hwithin
      have hpositive : 0 < pattern.length := List.length_pos_of_ne_nil hne
      simp only [List.length_append] at hlength
      rw [pieces_split hne hself hfree] at h
      obtain rfl | h := List.mem_cons.mp h
      · exact hfree
      · exact ih after.length (by omega) h rfl
    · rw [pieces_free hwithin, List.mem_singleton] at h
      rw [h]
      exact hwithin

/-- The pieces joined by the pattern are the text. -/
theorem intercalate_pieces (hne : pattern ≠ []) (hself : Clear pattern pattern) (x : List α) :
    pattern.intercalate (pieces pattern x) = x := by
  induction hlength : x.length using Nat.strong_induction_on generalizing x with
  | _ n ih =>
    by_cases hwithin : pattern <:+: x
    · obtain ⟨before, after, rfl, hfree⟩ := first_occurrence hne hwithin
      have hpositive : 0 < pattern.length := List.length_pos_of_ne_nil hne
      simp only [List.length_append] at hlength
      rw [pieces_split hne hself hfree,
        List.intercalate_cons_of_ne_nil (pieces_ne_nil hne hself after),
        ih after.length (by omega) after rfl, List.append_assoc]
    · rw [pieces_free hwithin, List.intercalate_singleton]

/-- Lines without the pattern, joined by it, are the pieces of the text. -/
theorem pieces_intercalate (hne : pattern ≠ []) (hself : Clear pattern pattern)
    {lines : List (List α)} (hlines : lines ≠ []) (hfree : ∀ line ∈ lines, ¬ pattern <:+: line) :
    pieces pattern (pattern.intercalate lines) = lines := by
  induction lines with
  | nil => exact absurd rfl hlines
  | cons line rest ih =>
    have hline := hfree line List.mem_cons_self
    by_cases hrest : rest = []
    · rw [hrest, List.intercalate_singleton, pieces_free hline]
    · rw [List.intercalate_cons_of_ne_nil hrest, List.append_assoc, pieces_split hne hself hline,
        ih hrest fun line hmem => hfree line (List.mem_cons_of_mem _ hmem)]

omit [DecidableEq α] in
theorem intercalate_append {l m : List (List α)} (hl : l ≠ []) (hm : m ≠ []) :
    pattern.intercalate (l ++ m) = pattern.intercalate l ++ (pattern ++ pattern.intercalate m) := by
  induction l with
  | nil => exact absurd rfl hl
  | cons line rest ih =>
    by_cases hrest : rest = []
    · rw [hrest, List.singleton_append, List.intercalate_cons_of_ne_nil hm,
        List.intercalate_singleton, List.append_assoc]
    · rw [List.cons_append, List.intercalate_cons_of_ne_nil (List.append_ne_nil_of_left_ne_nil hrest m),
        ih hrest, List.intercalate_cons_of_ne_nil hrest]
      simp only [List.append_assoc]

end Patterns

end VibeKanban.Lib
