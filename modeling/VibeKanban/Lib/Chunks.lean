import Mathlib.Data.List.Basic

/-! The consecutive pieces of a list, all of one size but for the last. -/
namespace VibeKanban.Lib

variable {α : Type*} {size : ℕ} {data : List α}

def chunks (size : ℕ) (data : List α) : List (List α) :=
  if _h : 0 < size ∧ data ≠ [] then data.take size :: chunks size (data.drop size) else []
termination_by data.length
decreasing_by
  have := List.length_pos_of_ne_nil _h.2
  simp only [List.length_drop]
  omega

theorem chunks_cons (hsize : 0 < size) (hdata : data ≠ []) :
    chunks size data = data.take size :: chunks size (data.drop size) := by
  rw [chunks, dif_pos ⟨hsize, hdata⟩]

theorem chunks_ne_nil (hsize : 0 < size) (hdata : data ≠ []) : chunks size data ≠ [] := by
  rw [chunks_cons hsize hdata]
  exact List.cons_ne_nil _ _

theorem chunks_flatten (hsize : 0 < size) (data : List α) : (chunks size data).flatten = data := by
  fun_induction chunks size data with
  | case1 data h ih =>
    rw [List.flatten_cons, ih]
    exact List.take_append_drop size data
  | case2 data h =>
    have hnil : data = [] := by
      by_contra hne
      exact h ⟨hsize, hne⟩
    rw [hnil]
    rfl

/-- The pieces are neither empty nor too long. -/
theorem mem_chunks {piece : List α} (h : piece ∈ chunks size data) :
    piece ≠ [] ∧ piece.length ≤ size := by
  fun_induction chunks size data with
  | case1 data hdata ih =>
    obtain rfl | hrest := List.mem_cons.mp h
    · constructor
      · intro hnil
        obtain hzero | hnil := List.take_eq_nil_iff.mp hnil
        · omega
        · exact hdata.2 hnil
      · exact List.length_take_le size data
    · exact ih hrest
  | case2 data hdata => cases h

end VibeKanban.Lib
