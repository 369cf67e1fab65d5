import Mathlib.Data.List.Basic

/-! Programs over atomic statements, their executions, and weakest preconditions with an
obligation before every statement. -/
namespace VibeKanban.Lib

universe u v

/-- A program runs statements `s : S`, each with an answer in `A s`, and returns or fails. -/
inductive Prog (S : Type u) (A : S → Type) (ε α : Type) : Type u where
  | ret (a : α)
  | fail (e : ε)
  | op (s : S) (k : A s → Prog S A ε α)

namespace Prog
variable {S : Type u} {A : S → Type} {ε α β : Type}

def bind : Prog S A ε α → (α → Prog S A ε β) → Prog S A ε β
  | ret a, f => f a
  | fail e, _ => fail e
  | op s k, f => op s fun a => (k a).bind f

instance : Monad (Prog S A ε) where
  pure := ret
  bind := bind

theorem bind_assoc {γ : Type} (p : Prog S A ε α) (f : α → Prog S A ε β) (g : β → Prog S A ε γ) :
    (p >>= f) >>= g = p >>= fun a => f a >>= g := by
  change (p.bind f).bind g = p.bind fun a => (f a).bind g
  induction p with
  | ret a => rfl
  | fail e => rfl
  | op s k ih => exact congrArg (op s) (funext fun a => ih a)

def stmt (s : S) : Prog S A ε (A s) := op s ret

/-- Turn a failure into a value. -/
def attempt : Prog S A ε α → Prog S A ε (Except ε α)
  | ret a => ret (.ok a)
  | fail e => ret (.error e)
  | op s k => op s fun a => (k a).attempt

def ofExcept : Except ε α → Prog S A ε α
  | .ok a => ret a
  | .error e => fail e

/-- Run a body for every element; the first failure ends the loop. -/
def forEach (body : β → Prog S A ε Unit) : List β → Prog S A ε Unit
  | [] => ret ()
  | b :: rest => (body b).bind fun _ => forEach body rest

/-- Run a body for every element and keep its values. -/
def collect (body : β → Prog S A ε α) : List β → Prog S A ε (List α)
  | [] => ret []
  | b :: rest => (body b).bind fun a => (collect body rest).bind fun as => ret (a :: as)

section Wp
variable {σ : Type v} (oblige : S → σ → Prop) (exec : (s : S) → σ → A s → σ → Prop)

/-- Every statement meets its obligation and every outcome satisfies `Q`. -/
def wp : Prog S A ε α → (Except ε α → σ → Prop) → σ → Prop
  | ret a, Q, x => Q (.ok a) x
  | fail e, Q, x => Q (.error e) x
  | op s k, Q, x => oblige s x ∧ ∀ a y, exec s x a y → wp (k a) Q y

/-- A complete execution. -/
inductive Exec : Prog S A ε α → σ → Except ε α → σ → Prop where
  | ret (a : α) (x : σ) : Exec (ret a) x (.ok a) x
  | fail (e : ε) (x : σ) : Exec (fail e) x (.error e) x
  | op {s : S} {k : A s → Prog S A ε α} {x y z : σ} {a : A s} {r : Except ε α} :
    exec s x a y → Exec (k a) y r z → Exec (op s k) x r z

/-- The states an execution passes through. -/
inductive Visits : Prog S A ε α → σ → σ → Prop where
  | here (p : Prog S A ε α) (x : σ) : Visits p x x
  | op {s : S} {k : A s → Prog S A ε α} {x y z : σ} {a : A s} :
    exec s x a y → Visits (k a) y z → Visits (op s k) x z

variable {oblige exec}

/-- A complete execution passes through its last state. -/
theorem Exec.visits {p : Prog S A ε α} {x y : σ} {r : Except ε α} (h : Exec exec p x r y) :
    Visits exec p x y := by
  induction h with
  | ret a x => exact .here _ x
  | fail e x => exact .here _ x
  | op hstep _ ih => exact .op hstep ih

/-- A relation that every statement keeps holds along an execution. -/
theorem Visits.rel {R : σ → σ → Prop} (hrefl : ∀ x, R x x) (htrans : ∀ x y z, R x y → R y z → R x z)
    (hstep : ∀ s x a y, exec s x a y → R x y) {p : Prog S A ε α} {x y : σ}
    (h : Visits exec p x y) : R x y := by
  induction h with
  | here p x => exact hrefl x
  | op hexec _ ih => exact htrans _ _ _ (hstep _ _ _ _ hexec) ih

/-- A program that returned has gone through its parts. -/
theorem exec_bind_ok {p : Prog S A ε α} {f : α → Prog S A ε β} {x z : σ} {b : β}
    (h : Exec exec (p >>= f) x (.ok b) z) :
    ∃ a y, Exec exec p x (.ok a) y ∧ Exec exec (f a) y (.ok b) z := by
  change Exec exec (p.bind f) x (.ok b) z at h
  induction p generalizing x with
  | ret a => exact ⟨a, x, .ret a x, h⟩
  | fail e => cases h
  | op s k ih =>
    cases h with
    | op hstep hrest =>
      obtain ⟨a, y, hfirst, hthen⟩ := ih _ hrest
      exact ⟨a, y, .op hstep hfirst, hthen⟩

theorem exec_ret {a b : α} {x y : σ} (h : Exec exec (ret a : Prog S A ε α) x (.ok b) y) :
    a = b ∧ x = y := by
  cases h
  exact ⟨rfl, rfl⟩

theorem exec_stmt {s : S} {a : A s} {x y : σ}
    (h : Exec exec (stmt s : Prog S A ε (A s)) x (.ok a) y) : exec s x a y := by
  cases h with
  | op hstep hrest =>
    obtain ⟨rfl, rfl⟩ := exec_ret hrest
    exact hstep

section Record
variable {ρ : Type v} (note : (s : S) → A s → ρ → ρ)

/-- A statement beside a record of the answers. -/
def recorded (exec : (s : S) → σ → A s → σ → Prop) (s : S) (x : σ × ρ) (a : A s) (y : σ × ρ) : Prop :=
  exec s x.1 a y.1 ∧ y.2 = note s a x.2

/-- Every execution has its record. -/
theorem Exec.recorded {p : Prog S A ε α} {x y : σ} {r : Except ε α} (h : Exec exec p x r y)
    (before : ρ) : ∃ after, Exec (recorded note exec) p (x, before) r (y, after) := by
  induction h generalizing before with
  | ret a x => exact ⟨before, .ret a _⟩
  | fail e x => exact ⟨before, .fail e _⟩
  | op hstep _ ih =>
    obtain ⟨after, hrest⟩ := ih (note _ _ before)
    exact ⟨after, .op ⟨hstep, rfl⟩ hrest⟩

/-- The answers of the program leave the record alone. -/
def Unrecorded (exec : (s : S) → σ → A s → σ → Prop) (p : Prog S A ε α) : Prop :=
  ∀ x a y, Exec (Prog.recorded note exec) p x (.ok a) y → y.2 = x.2

variable {note}

theorem unrecorded_ret {a : α} : Unrecorded note exec (ret a : Prog S A ε α) := by
  intro x b y h
  rw [(exec_ret h).2]

theorem unrecorded_fail {e : ε} : Unrecorded note exec (fail e : Prog S A ε α) := by
  intro x b y h
  cases h

theorem unrecorded_stmt {s : S} (hnote : ∀ a seen, note s a seen = seen) :
    Unrecorded note exec (stmt s : Prog S A ε (A s)) := by
  intro x a y h
  rw [(exec_stmt h).2, hnote]

theorem unrecorded_bind {p : Prog S A ε α} {f : α → Prog S A ε β} (hp : Unrecorded note exec p)
    (hf : ∀ a, Unrecorded note exec (f a)) : Unrecorded note exec (p >>= f) := by
  intro x b z h
  obtain ⟨a, y, hfirst, hthen⟩ := exec_bind_ok h
  rw [hf a y b z hthen, hp x a y hfirst]

theorem unrecorded_ofExcept {r : Except ε α} : Unrecorded note exec (ofExcept r) := by
  cases r with
  | ok a => exact unrecorded_ret
  | error e => exact unrecorded_fail

theorem unrecorded_forEach {body : β → Prog S A ε Unit} (h : ∀ b, Unrecorded note exec (body b))
    (l : List β) : Unrecorded note exec (forEach body l) := by
  induction l with
  | nil => exact unrecorded_ret
  | cons b rest ih => exact unrecorded_bind (h b) fun _ => ih

end Record

/-- Run a program when every statement has one answer. -/
def play (run : (s : S) → σ → Option (A s × σ)) : Prog S A ε α → σ → Option (Except ε α × σ)
  | ret a, x => some (.ok a, x)
  | fail e, x => some (.error e, x)
  | op s k, x => (run s x).bind fun (a, y) => play run (k a) y

theorem exec_of_play {run : (s : S) → σ → Option (A s × σ)}
    (hrun : ∀ s x a y, run s x = some (a, y) → exec s x a y) {p : Prog S A ε α} {x y : σ}
    {r : Except ε α} (h : play run p x = some (r, y)) : Exec exec p x r y := by
  induction p generalizing x with
  | ret a =>
    obtain ⟨rfl, rfl⟩ := Prod.mk.inj (Option.some.inj h)
    exact .ret a x
  | fail e =>
    obtain ⟨rfl, rfl⟩ := Prod.mk.inj (Option.some.inj h)
    exact .fail e x
  | op s k ih =>
    obtain ⟨⟨a, z⟩, hstep, hrest⟩ := Option.bind_eq_some_iff.mp h
    exact .op (hrun s x a z hstep) (ih a hrest)

/-- Answers beside their record. -/
def runRecorded {ρ : Type v} (note : (s : S) → A s → ρ → ρ) (run : (s : S) → σ → Option (A s × σ))
    (s : S) (x : σ × ρ) : Option (A s × σ × ρ) :=
  (run s x.1).map fun (a, y) => (a, y, note s a x.2)

theorem runRecorded_recorded {ρ : Type v} {note : (s : S) → A s → ρ → ρ}
    {run : (s : S) → σ → Option (A s × σ)}
    (hrun : ∀ s x a y, run s x = some (a, y) → exec s x a y) (s : S) (x : σ × ρ) (a : A s) (y : σ × ρ)
    (h : runRecorded note run s x = some (a, y)) : recorded note exec s x a y := by
  obtain ⟨⟨b, z⟩, hstep, heq⟩ := Option.map_eq_some_iff.mp h
  obtain ⟨rfl, rfl⟩ := Prod.mk.inj heq
  exact ⟨hrun s x.1 b z hstep, rfl⟩

/-- What follows a program that returned. -/
theorem play_bind {run : (s : S) → σ → Option (A s × σ)} {p : Prog S A ε α}
    {f : α → Prog S A ε β} {x y : σ} {a : α} (h : play run p x = some (.ok a, y)) :
    play run (p >>= f) x = play run (f a) y := by
  change play run (p.bind f) x = _
  induction p generalizing x with
  | ret b =>
    obtain ⟨hb, rfl⟩ := Prod.mk.inj (Option.some.inj h)
    cases hb
    rfl
  | fail e => cases (Prod.mk.inj (Option.some.inj h)).1
  | op s k ih =>
    obtain ⟨⟨b, z⟩, hstep, hrest⟩ := Option.bind_eq_some_iff.mp h
    rw [bind, play, hstep]
    exact ih b hrest

/-- A loop whose every round returns. -/
theorem play_forEach {run : (s : S) → σ → Option (A s × σ)} {body : β → Prog S A ε Unit}
    {f : σ → β → σ} (h : ∀ b x, play run (body b) x = some (.ok (), f x b)) (l : List β) (x : σ) :
    play run (forEach body l) x = some (.ok (), l.foldl f x) := by
  induction l generalizing x with
  | nil => rfl
  | cons b rest ih => exact (play_bind (h b x)).trans (ih (f x b))

theorem wp_exec {p : Prog S A ε α} {Q : Except ε α → σ → Prop} {x y : σ} {r : Except ε α}
    (h : wp oblige exec p Q x) (he : Exec exec p x r y) : Q r y := by
  induction he with
  | ret a x => exact h
  | fail e x => exact h
  | op hstep _ ih => exact ih (h.2 _ _ hstep)

theorem wp_visits {I : σ → Prop} {p : Prog S A ε α} {Q : Except ε α → σ → Prop} {x y : σ}
    (ho : ∀ s x, oblige s x → I x) (hQ : ∀ r y, Q r y → I y) (h : wp oblige exec p Q x)
    (hv : Visits exec p x y) : I y := by
  induction hv with
  | here p x =>
    cases p with
    | ret a => exact hQ _ _ h
    | fail e => exact hQ _ _ h
    | op s k => exact ho s x h.1
  | op hstep _ ih => exact ih (h.2 _ _ hstep)

theorem wp_mono {p : Prog S A ε α} {Q Q' : Except ε α → σ → Prop} (hQ : ∀ r y, Q r y → Q' r y)
    {x : σ} (h : wp oblige exec p Q x) : wp oblige exec p Q' x := by
  induction p generalizing x with
  | ret a => exact hQ _ _ h
  | fail e => exact hQ _ _ h
  | op s k ih => exact ⟨h.1, fun a y hstep => ih a (h.2 a y hstep)⟩

theorem wp_bind' {p : Prog S A ε α} {f : α → Prog S A ε β} {Q : Except ε β → σ → Prop} {x : σ} :
    wp oblige exec (p.bind f) Q x ↔ wp oblige exec p (fun r y => match r with
      | .ok a => wp oblige exec (f a) Q y
      | .error e => Q (.error e) y) x := by
  induction p generalizing x with
  | ret a => exact Iff.rfl
  | fail e => exact Iff.rfl
  | op s k ih =>
    simp only [bind, wp]
    exact and_congr_right fun _ => forall_congr' fun a => forall_congr' fun y =>
      imp_congr_right fun _ => ih a

theorem wp_bind {p : Prog S A ε α} {f : α → Prog S A ε β} {Q : Except ε β → σ → Prop} {x : σ} :
    wp oblige exec (p >>= f) Q x ↔ wp oblige exec p (fun r y => match r with
      | .ok a => wp oblige exec (f a) Q y
      | .error e => Q (.error e) y) x := wp_bind'

theorem wp_attempt {p : Prog S A ε α} {Q : Except ε (Except ε α) → σ → Prop} {x : σ} :
    wp oblige exec p.attempt Q x ↔ wp oblige exec p (fun r y => Q (.ok r) y) x := by
  induction p generalizing x with
  | ret a => exact Iff.rfl
  | fail e => exact Iff.rfl
  | op s k ih =>
    simp only [attempt, wp]
    exact and_congr_right fun _ => forall_congr' fun a => forall_congr' fun y =>
      imp_congr_right fun _ => ih a

/-- The loop rule: `J` speaks about the elements still to come. -/
theorem wp_forEach {body : β → Prog S A ε Unit} {Q : Except ε Unit → σ → Prop}
    (J : List β → σ → Prop) (hdone : ∀ x, J [] x → Q (.ok ()) x)
    (hbody : ∀ b rest x, J (b :: rest) x → wp oblige exec (body b) (fun r y => match r with
      | .ok _ => J rest y
      | .error e => Q (.error e) y) x) {l : List β} {x : σ} (hx : J l x) :
    wp oblige exec (forEach body l) Q x := by
  induction l generalizing x with
  | nil => exact hdone x hx
  | cons b rest ih =>
    rw [forEach, wp_bind']
    refine wp_mono ?_ (hbody b rest x hx)
    intro r y hr
    cases r with
    | ok a => exact ih hr
    | error e => exact hr

theorem wp_ofExcept {r : Except ε α} {Q : Except ε α → σ → Prop} {x : σ} :
    wp oblige exec (ofExcept r) Q x ↔ Q r x := by
  cases r with
  | ok a => exact Iff.rfl
  | error e => exact Iff.rfl

/-- The loop rule for a body that keeps `J` whatever it returns. -/
theorem wp_collect {body : β → Prog S A ε α} {Q : Except ε (List α) → σ → Prop} (J : σ → Prop)
    (hdone : ∀ l x, J x → Q (.ok l) x)
    (hbody : ∀ b x, J x → wp oblige exec (body b) (fun r y => match r with
      | .ok _ => J y
      | .error e => Q (.error e) y) x) {l : List β} {x : σ} (hx : J x) :
    wp oblige exec (collect body l) Q x := by
  induction l generalizing x Q with
  | nil => exact hdone [] x hx
  | cons b rest ih =>
    rw [collect, wp_bind']
    refine wp_mono ?_ (hbody b x hx)
    intro r y hr
    cases r with
    | ok a =>
      refine wp_bind'.mpr (ih ?_ ?_ hr)
      · exact fun as z hz => hdone (a :: as) z hz
      · intro b' z hz
        refine wp_mono ?_ (hbody b' z hz)
        intro r' w hw
        cases r' with
        | ok _ => exact hw
        | error e => exact hw
    | error e => exact hr

end Wp

end Prog

end VibeKanban.Lib
