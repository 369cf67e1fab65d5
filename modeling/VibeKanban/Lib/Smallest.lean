import Mathlib.Data.List.Sort
import Mathlib.Order.Defs.LinearOrder

/-! Ordered maps as lists, and the scan that keeps only the elements with the smallest keys. -/
namespace VibeKanban.Lib

variable {α κ : Type*} [LinearOrder κ] {key : α → κ} {a : α} {l kept : List α} {bound : ℕ}

/-- The map with an element put in under its key. -/
def place (key : α → κ) (a : α) : List α → List α
  | [] => [a]
  | b :: rest =>
    if key a < key b then a :: b :: rest
    else if key a = key b then a :: rest
    else b :: place key a rest

/-- A map that has grown over a bound loses its last element. -/
def popAbove (bound : ℕ) (l : List α) : List α := if bound < l.length then l.dropLast else l

/-- The elements put into a map one by one, the map kept below a bound. -/
def scanSmallest (key : α → κ) (bound : ℕ) (l : List α) : List α :=
  l.foldl (fun kept a => popAbove bound (place key a kept)) []

theorem length_place_le (key : α → κ) (a : α) (l : List α) : (place key a l).length ≤ l.length + 1 := by
  induction l with
  | nil => simp [place]
  | cons b rest ih =>
    rw [place]
    split
    · simp
    · split
      · simp
      · simpa using ih

theorem popAbove_eq_take (h : l.length ≤ bound + 1) : popAbove bound l = l.take bound := by
  unfold popAbove
  split
  · rw [List.dropLast_eq_take]
    congr 1
    omega
  · rw [List.take_of_length_le (by omega)]

/-- What is cut off does not matter for what is put in. -/
theorem take_place_take (key : α → κ) (a : α) (l : List α) (bound : ℕ) :
    (place key a (l.take bound)).take bound = (place key a l).take bound := by
  induction l generalizing bound with
  | nil => simp
  | cons b rest ih =>
    cases bound with
    | zero => simp
    | succ bound =>
      rw [List.take_succ_cons, place, place]
      split
      · cases bound with
        | zero => simp
        | succ bound => simp [List.take_take]
      · split
        · simp [List.take_take]
        · simp [ih]

theorem scanSmallest_eq_take (key : α → κ) (bound : ℕ) (l : List α) :
    scanSmallest key bound l = (l.foldl (fun kept a => place key a kept) []).take bound := by
  have hgeneral : ∀ kept : List α,
      l.foldl (fun kept a => popAbove bound (place key a kept)) (kept.take bound) =
        (l.foldl (fun kept a => place key a kept) kept).take bound := by
    induction l with
    | nil => simp
    | cons first rest ih =>
      intro kept
      have hlength := length_place_le key first (kept.take bound)
      rw [List.foldl_cons, List.foldl_cons, popAbove_eq_take (by
        have hshort := List.length_take_le bound kept
        omega), take_place_take, ih]
  simpa [scanSmallest] using hgeneral []

theorem place_perm (h : ∀ b ∈ l, key b ≠ key a) : (place key a l).Perm (a :: l) := by
  induction l with
  | nil => simp [place]
  | cons b rest ih =>
    rw [place]
    split
    · rfl
    · rw [if_neg fun heq => h b List.mem_cons_self heq.symm]
      exact ((ih fun c hc => h c (List.mem_cons_of_mem _ hc)).cons b).trans (.swap a b rest)

theorem pairwise_place (hsorted : l.Pairwise (key · < key ·)) (h : ∀ b ∈ l, key b ≠ key a) :
    (place key a l).Pairwise (key · < key ·) := by
  induction l with
  | nil => simp [place]
  | cons b rest ih =>
    obtain ⟨hfirst, hrest⟩ := List.pairwise_cons.mp hsorted
    have hothers : ∀ c ∈ rest, key c ≠ key a := fun c hc => h c (List.mem_cons_of_mem _ hc)
    rw [place]
    split
    · rename_i hlt
      apply List.pairwise_cons.mpr
      refine ⟨fun c hc => ?_, hsorted⟩
      rcases List.mem_cons.mp hc with rfl | hin
      · exact hlt
      · exact hlt.trans (hfirst c hin)
    · rename_i hge
      have hne : key b ≠ key a := h b List.mem_cons_self
      rw [if_neg hne.symm]
      apply List.pairwise_cons.mpr
      refine ⟨fun c hc => ?_, ih hrest hothers⟩
      rcases List.mem_cons.mp ((place_perm hothers).mem_iff.mp hc) with rfl | hin
      · exact lt_of_le_of_ne (not_lt.mp hge) hne
      · exact hfirst c hin

/-- Whatever the order of the scan, the smallest keys are kept. -/
theorem scanSmallest_of_perm {sorted : List α} (hsorted : sorted.Pairwise (key · < key ·))
    (hperm : l.Perm sorted) : scanSmallest key bound l = sorted.take bound := by
  have hfold : ∀ l kept : List α, (kept ++ l).Pairwise (key · ≠ key ·) →
      kept.Pairwise (key · < key ·) →
      (l.foldl (fun kept a => place key a kept) kept).Perm (kept ++ l) ∧
        (l.foldl (fun kept a => place key a kept) kept).Pairwise (key · < key ·) := by
    intro l
    induction l with
    | nil => simp
    | cons first rest ih =>
      intro kept hdistinct hkept
      have hnew : ∀ b ∈ kept, key b ≠ key first := fun b hb =>
        (List.pairwise_append.mp hdistinct).2.2 b hb first List.mem_cons_self
      have hmoved : (place key first kept ++ rest).Perm (kept ++ first :: rest) :=
        ((place_perm hnew).append_right rest).trans List.perm_middle.symm
      have hdistinct' := (hmoved.pairwise_iff fun h => h.symm).mpr hdistinct
      obtain ⟨hresult, hordered⟩ := ih _ hdistinct' (pairwise_place hkept hnew)
      exact ⟨hresult.trans hmoved, hordered⟩
  have hdistinct : l.Pairwise (key · ≠ key ·) :=
    (hperm.pairwise_iff fun h => h.symm).mpr (hsorted.imp fun h => h.ne)
  obtain ⟨hresult, hordered⟩ := hfold l [] hdistinct .nil
  rw [scanSmallest_eq_take]
  congr 1
  exact (hresult.trans hperm).eq_of_pairwise (fun a b _ _ hab hba => absurd hab hba.asymm) hordered hsorted

end VibeKanban.Lib
