import Mathlib.Data.List.Forall2

/-! Computations that may fail: what a successful sequence or loop consists of. -/
namespace VibeKanban.Lib

variable {ε α β σ : Type}

theorem except_bind_iff {x : Except ε α} {f : α → Except ε β} {b : β} :
    (x >>= f) = .ok b ↔ ∃ a, x = .ok a ∧ f a = .ok b := by
  constructor
  · intro h
    cases x with
    | error e => cases h
    | ok a => exact ⟨a, rfl, h⟩
  · rintro ⟨a, rfl, hf⟩
    exact hf

theorem except_bind_ok {x : Except ε α} {f : α → Except ε β} {b : β} (h : (x >>= f) = .ok b) :
    ∃ a, x = .ok a ∧ f a = .ok b := except_bind_iff.mp h

/-- A loop succeeds when every pass does. -/
theorem forM_ok_iff {f : α → Except ε Unit} {l : List α} :
    l.forM f = .ok () ↔ ∀ a ∈ l, f a = .ok () := by
  induction l with
  | nil => exact ⟨fun _ _ h => absurd h List.not_mem_nil, fun _ => rfl⟩
  | cons a rest ih =>
    change (f a >>= fun _ => rest.forM f) = .ok () ↔ _
    rw [except_bind_iff, List.forall_mem_cons, ← ih]
    exact ⟨fun ⟨_, ha, hrest⟩ => ⟨ha, hrest⟩, fun ⟨ha, hrest⟩ => ⟨(), ha, hrest⟩⟩

theorem mapM_ok_iff {f : α → Except ε β} {l : List α} {l' : List β} :
    l.mapM f = .ok l' ↔ List.Forall₂ (fun a b => f a = .ok b) l l' := by
  induction l generalizing l' with
  | nil =>
    rw [List.mapM_nil, List.forall₂_nil_left_iff]
    exact ⟨fun h => (Except.ok.inj h).symm, fun h => congrArg _ h.symm⟩
  | cons a rest ih =>
    rw [List.mapM_cons, except_bind_iff]
    constructor
    · rintro ⟨b, hb, hrest⟩
      obtain ⟨bs, hbs, heq⟩ := except_bind_iff.mp hrest
      obtain rfl := Except.ok.inj heq
      exact List.Forall₂.cons hb (ih.mp hbs)
    · intro h
      obtain ⟨b, bs, hb, hbs, rfl⟩ := List.forall₂_cons_left_iff.mp h
      exact ⟨b, hb, except_bind_iff.mpr ⟨bs, ih.mpr hbs, rfl⟩⟩

theorem exists_of_forall₂_right {R : α → β → Prop} {l : List α} {l' : List β}
    (h : List.Forall₂ R l l') {b : β} (hb : b ∈ l') : ∃ a ∈ l, R a b := by
  induction h with
  | nil => cases hb
  | cons hR _ ih =>
    obtain rfl | hb := List.mem_cons.mp hb
    · exact ⟨_, List.mem_cons_self, hR⟩
    · obtain ⟨a, ha, hRa⟩ := ih hb
      exact ⟨a, List.mem_cons_of_mem _ ha, hRa⟩

/-- A preorder that relates the states around every step relates the ends of a fold. -/
theorem foldlM_rel {R : σ → σ → Prop} (hrefl : ∀ x, R x x)
    (htrans : ∀ x y z, R x y → R y z → R x z) {step : σ → α → Except ε σ}
    (h : ∀ x a y, step x a = .ok y → R x y) {l : List α} {x y : σ}
    (hfold : l.foldlM step x = .ok y) : R x y := by
  induction l generalizing x with
  | nil =>
    obtain rfl := Except.ok.inj hfold
    exact hrefl x
  | cons a rest ih =>
    rw [List.foldlM_cons] at hfold
    obtain ⟨mid, hmid, hrest⟩ := except_bind_ok hfold
    exact htrans x mid y (h x a mid hmid) (ih hrest)

/-- A fold succeeds when every step succeeds from where an invariant holds, and keeps it. -/
theorem foldlM_succeeds {I : σ → Prop} {step : σ → α → Except ε σ} {l : List α}
    (h : ∀ x, I x → ∀ a ∈ l, ∃ y, step x a = .ok y ∧ I y) {x : σ} (hx : I x) :
    ∃ y, l.foldlM step x = .ok y ∧ I y := by
  induction l generalizing x with
  | nil => exact ⟨x, rfl, hx⟩
  | cons a rest ih =>
    obtain ⟨mid, hmid, hI⟩ := h x hx a List.mem_cons_self
    obtain ⟨y, hy, hIy⟩ := ih (fun x hx b hb => h x hx b (List.mem_cons_of_mem _ hb)) hI
    refine ⟨y, ?_, hIy⟩
    rw [List.foldlM_cons, hmid]
    exact hy

end VibeKanban.Lib
