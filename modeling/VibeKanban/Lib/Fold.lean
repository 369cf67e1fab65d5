import Mathlib.Data.List.Induction
import Mathlib.Data.List.Perm.Basic

/-! Folds whose steps commute under an invariant, and folds that keep the first value that ends them. -/
namespace VibeKanban.Lib

variable {α β : Type*} {step : β → α → β} {I : β → Prop}

theorem foldl_invariant (hstep : ∀ x y, I x → I (step x y)) {x : β} (hx : I x) (l : List α) :
    I (l.foldl step x) := by
  induction l generalizing x with
  | nil => exact hx
  | cons a rest ih => exact ih (hstep x a hx)

/-- A step that commutes with all steps of a fold may be taken after them. -/
theorem foldl_step_comm (hstep : ∀ x y, I x → I (step x y)) {l : List α} {m : α}
    (hcomm : ∀ a ∈ l, ∀ x, I x → step (step x m) a = step (step x a) m) {x : β} (hx : I x) :
    l.foldl step (step x m) = step (l.foldl step x) m := by
  induction l generalizing x with
  | nil => rfl
  | cons a rest ih =>
    rw [List.foldl_cons, List.foldl_cons, hcomm a List.mem_cons_self x hx]
    exact ih (fun b hb => hcomm b (List.mem_cons_of_mem a hb)) (hstep x a hx)

/-- The order of commuting steps does not matter. -/
theorem foldl_perm (hstep : ∀ x y, I x → I (step x y)) {l l' : List α} (hperm : l.Perm l')
    (hcomm : ∀ a ∈ l, ∀ b ∈ l, ∀ x, I x → step (step x a) b = step (step x b) a) {x : β}
    (hx : I x) : l.foldl step x = l'.foldl step x := by
  induction hperm generalizing x with
  | nil => rfl
  | cons a _ ih =>
    exact ih (fun b hb c hc => hcomm b (List.mem_cons_of_mem a hb) c (List.mem_cons_of_mem a hc))
      (hstep x a hx)
  | swap a b rest =>
    rw [List.foldl_cons, List.foldl_cons, List.foldl_cons, List.foldl_cons,
      hcomm b List.mem_cons_self a (List.mem_cons_of_mem b List.mem_cons_self) x hx]
  | trans hfirst _ ih₁ ih₂ =>
    rw [ih₁ hcomm hx]
    exact ih₂ (fun a ha b hb => hcomm a (hfirst.mem_iff.mpr ha) b (hfirst.mem_iff.mpr hb)) hx

/-- The first value that ends a sequence; the last one where none does. -/
def outcome {σ : Type*} (ends : σ → Bool) (start : σ) (values : List σ) : σ :=
  (values.find? ends).getD (values.getLast?.getD start)

/-- A value that has ended stays. -/
theorem outcome_concat {σ : Type*} {ends : σ → Bool} {start : σ} (hstart : ends start = false)
    (values : List σ) (value : σ) : outcome ends start (values ++ [value]) =
      if ends (outcome ends start values) then outcome ends start values else value := by
  unfold outcome
  cases hfind : values.find? ends with
  | some ended =>
    rw [List.find?_append, hfind, Option.some_or, Option.getD_some, Option.getD_some,
      if_pos (List.find?_some hfind)]
  | none =>
    have hopen : ends (values.getLast?.getD start) = false := by
      cases hlast : values.getLast? with
      | none => exact hstart
      | some last =>
        rw [Option.getD_some]
        simpa using List.find?_eq_none.mp hfind last (List.mem_of_getLast? hlast)
    rw [List.find?_append, hfind, Option.none_or, Option.getD_none, hopen]
    cases hvalue : ends value with
    | true => simp [hvalue]
    | false => simp [hvalue]

theorem outcome_ends {σ : Type*} {ends : σ → Bool} {start : σ} (hstart : ends start = false)
    (values : List σ) : ends (outcome ends start values) = values.any ends := by
  induction values using List.reverseRecOn with
  | nil => exact hstart
  | append_singleton values value ih =>
    rw [outcome_concat hstart, List.any_append, ← ih]
    split_ifs with hended
    · rw [hended, Bool.true_or]
    · rw [Bool.not_eq_true] at hended
      simp [hended]

end VibeKanban.Lib
