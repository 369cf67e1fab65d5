import Mathlib.Data.List.InsertIdx
import Mathlib.Data.List.Nodup
import Mathlib.Data.List.Sort

/-! Insertion at positions: a list from which some elements were taken is restored by inserting them
again at their positions, the lowest position first. -/
namespace VibeKanban.Lib

universe u v

variable {α : Type u} {β : Type v}

/-- Insert at a position, at the end where the list is shorter. -/
def splice (l : List α) (i : ℕ) (a : α) : List α := l.insertIdx (min i l.length) a

/-- Insert the values of items one after the other, each at a place that may depend on the list. -/
def spliceWith (place : List α → β → ℕ) (value : β → α) (l : List α) (items : List β) : List α :=
  items.foldl (fun l item => splice l (place l item) (value item)) l

def spliceAll (l : List α) (items : List (α × ℕ)) : List α :=
  items.foldl (fun l item => splice l item.2 item.1) l

theorem splice_append (before after : List α) (a : α) :
    splice (before ++ after) before.length a = before ++ a :: after := by
  have hmin : min before.length (before ++ after).length = before.length := by
    rw [List.length_append]
    omega
  rw [splice, hmin]
  induction before with
  | nil => rfl
  | cons b rest ih =>
    have hmin : min rest.length (rest ++ after).length = rest.length := by
      rw [List.length_append]
      omega
    simp only [List.cons_append, List.length_cons, List.insertIdx_succ_cons]
    rw [ih hmin]

theorem spliceWith_perm (place : List α → β → ℕ) (value : β → α) (l : List α) (items : List β) :
    (spliceWith place value l items).Perm (items.map value ++ l) := by
  induction items generalizing l with
  | nil => exact .refl l
  | cons item rest ih =>
    rw [spliceWith, List.foldl_cons]
    have hinsert : (splice l (place l item) (value item)).Perm (value item :: l) :=
      List.perm_insertIdx (value item) l (Nat.min_le_right _ _)
    exact (ih _).trans ((List.Perm.append_left _ hinsert).trans List.perm_middle)

theorem filter_splice_neg {p : α → Bool} {l : List α} {i : ℕ} {a : α} (ha : p a = false) :
    (splice l i a).filter p = l.filter p := by
  have hsplit : l = l.take (min i l.length) ++ l.drop (min i l.length) :=
    (List.take_append_drop _ l).symm
  have hlength : (l.take (min i l.length)).length = min i l.length := by
    rw [List.length_take]
    omega
  have hsplice := splice_append (l.take (min i l.length)) (l.drop (min i l.length)) a
  rw [← hsplit, hlength] at hsplice
  have hmin : min (min i l.length) l.length = min i l.length := by omega
  rw [splice, hmin] at hsplice
  rw [splice, hsplice, List.filter_append, List.filter_cons_of_neg (by simp [ha]),
    ← List.filter_append, ← hsplit]

theorem filter_spliceWith {p : α → Bool} {place : List α → β → ℕ} {value : β → α}
    {items : List β} (hitems : ∀ item ∈ items, p (value item) = false) (l : List α) :
    (spliceWith place value l items).filter p = l.filter p := by
  induction items generalizing l with
  | nil => rfl
  | cons item rest ih =>
    obtain ⟨hitem, hrest⟩ := List.forall_mem_cons.mp hitems
    rw [spliceWith, List.foldl_cons]
    exact (ih hrest _).trans (filter_splice_neg hitem)

/-- What was taken is inserted again behind a part that is already restored. -/
theorem spliceAll_zipIdx (p : α → Bool) (before l : List α) :
    spliceAll (before ++ l.filter fun a => !p a)
      ((l.zipIdx before.length).filter fun item => p item.1) = before ++ l := by
  induction l generalizing before with
  | nil => simp [spliceAll]
  | cons a rest ih =>
    have hnext := ih (before ++ [a])
    rw [List.length_append, List.length_singleton, List.append_assoc, List.append_assoc,
      List.singleton_append, List.singleton_append] at hnext
    rw [List.zipIdx_cons]
    cases ha : p a with
    | true =>
      rw [List.filter_cons_of_neg (by simp [ha]), List.filter_cons_of_pos (by simpa using ha),
        spliceAll, List.foldl_cons, splice_append]
      exact hnext
    | false =>
      rw [List.filter_cons_of_pos (by simp [ha]), List.filter_cons_of_neg (by simp [ha])]
      exact hnext

theorem spliceAll_restore (p : α → Bool) (l : List α) :
    spliceAll (l.filter fun a => !p a) (l.zipIdx.filter fun item => p item.1) = l :=
  spliceAll_zipIdx p [] l

/-- The positions in a list come in increasing order. -/
theorem zipIdx_sorted (l : List α) (n : ℕ) :
    (l.zipIdx n).Pairwise fun a b => a.2 < b.2 := by
  induction l generalizing n with
  | nil => exact .nil
  | cons a rest ih =>
    rw [List.zipIdx_cons]
    refine List.pairwise_cons.mpr ⟨fun item hitem => ?_, ih (n + 1)⟩
    have hle := List.le_snd_of_mem_zipIdx hitem
    exact hle

end VibeKanban.Lib
