import Mathlib

/-! Sequences that step from one element of a set of integers to the next. -/
namespace VibeKanban.Lib

/-- Every `next i` is the least element after `start i`, and the next search starts between it and the
element after it. -/
structure Successive (S : Set ℤ) (start next : ℕ → ℤ) : Prop where
  isLeast : ∀ i, IsLeast {s ∈ S | start i < s} (next i)
  le_start : ∀ i, next i ≤ start (i + 1)
  start_lt : ∀ i, ∀ s ∈ S, next i < s → start (i + 1) < s

namespace Successive
variable {S : Set ℤ} {start next : ℕ → ℤ}

theorem strictMono (h : Successive S start next) : StrictMono next := by
  apply strictMono_nat_of_lt_succ
  intro i
  exact (h.le_start i).trans_lt (h.isLeast (i + 1)).1.2

theorem start_zero_lt (h : Successive S start next) (i : ℕ) : start 0 < next i :=
  (h.isLeast 0).1.2.trans_le (h.strictMono.monotone (Nat.zero_le i))

theorem unbounded (h : Successive S start next) (s : ℤ) : ∃ i, s ≤ next i := by
  have hgrows : ∀ i : ℕ, next 0 + i ≤ next i := by
    intro i
    induction i with
    | zero => simp
    | succ i ih =>
      have hstep := h.strictMono (Nat.lt_add_one i)
      push_cast
      omega
  have hreached := hgrows (s - next 0).toNat
  exact ⟨(s - next 0).toNat, by omega⟩

/-- The elements after the start are taken one by one. -/
theorem mem_range_iff (h : Successive S start next) (s : ℤ) :
    s ∈ Set.range next ↔ s ∈ S ∧ start 0 < s := by
  constructor
  · rintro ⟨i, rfl⟩
    exact ⟨(h.isLeast i).1.1, h.start_zero_lt i⟩
  · rintro ⟨hmem, hstart⟩
    have hreached := h.unbounded s
    have hle := Nat.find_spec hreached
    -- the search that reaches `s` starts before it
    have hbefore : start (Nat.find hreached) < s := by
      cases hi : Nat.find hreached with
      | zero => exact hstart
      | succ i =>
        have hmissed : ¬ s ≤ next i := Nat.find_min hreached (by omega)
        exact h.start_lt i s hmem (by omega)
    exact ⟨Nat.find hreached, le_antisymm ((h.isLeast _).2 ⟨hmem, hbefore⟩) hle⟩

end Successive

end VibeKanban.Lib
