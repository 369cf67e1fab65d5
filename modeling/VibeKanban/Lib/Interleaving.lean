import Mathlib.Algebra.BigOperators.Group.List.Basic
import Mathlib.Algebra.Order.BigOperators.Group.List
import Mathlib.Algebra.Order.Ring.Nat
import Mathlib.Logic.Relation
import VibeKanban.Lib.Prog

/-! Interleavings of any number of programs over one shared state, their invariants, and a token
discipline that bounds how often paid statements run. -/
namespace VibeKanban.Lib
open Relation

universe u v

/-- The statements executed so far, newest first, the shared state and the programs under way. -/
structure World (S : Type u) (A : S → Type) (ε : Type) (σ : Type v) where
  trace : List (Sigma A)
  state : σ
  threads : List (Prog S A ε Unit)

section
variable {S : Type u} {A : S → Type} {ε : Type} {σ : Type v}

def World.start (x : σ) : World S A ε σ := ⟨[], x, []⟩

variable (exec : (s : S) → σ → A s → σ → Prop) (env : σ → σ → Prop)
  (spawn : Prog S A ε Unit → Prop) (guard : S → σ → Prop)

/-- One step: a program starts, takes its next statement or is abandoned, or the environment
acts. Statements run only under their guard. -/
inductive Step : World S A ε σ → World S A ε σ → Prop where
  | spawn {tr x ts p} : spawn p → Step ⟨tr, x, ts⟩ ⟨tr, x, p :: ts⟩
  | act {tr x y before after} {s : S} {k : A s → Prog S A ε Unit} {a : A s} :
    guard s x → exec s x a y →
      Step ⟨tr, x, before ++ .op s k :: after⟩ ⟨⟨s, a⟩ :: tr, y, before ++ k a :: after⟩
  | drop {tr x before after p} : Step ⟨tr, x, before ++ p :: after⟩ ⟨tr, x, before ++ after⟩
  | env {tr x y ts} : env x y → Step ⟨tr, x, ts⟩ ⟨tr, y, ts⟩

/-- Any number of steps. -/
abbrev Steps : World S A ε σ → World S A ε σ → Prop :=
  ReflTransGen (Step exec env spawn guard)

variable {exec env spawn guard}

/-- The first program takes its next statement. -/
theorem Step.first {tr : List (Sigma A)} {x y : σ} {s : S} {k : A s → Prog S A ε Unit} {a : A s}
    {ts : List (Prog S A ε Unit)} (hg : guard s x) (hs : exec s x a y) :
    Step exec env spawn guard ⟨tr, x, .op s k :: ts⟩ ⟨⟨s, a⟩ :: tr, y, k a :: ts⟩ := by
  change Step exec env spawn guard ⟨tr, x, [] ++ .op s k :: ts⟩ ⟨⟨s, a⟩ :: tr, y, [] ++ k a :: ts⟩
  exact Step.act hg hs

theorem Step.first_dropped {tr : List (Sigma A)} {x : σ} {p : Prog S A ε Unit}
    {ts : List (Prog S A ε Unit)} : Step exec env spawn guard ⟨tr, x, p :: ts⟩ ⟨tr, x, ts⟩ := by
  change Step exec env spawn guard ⟨tr, x, [] ++ p :: ts⟩ ⟨tr, x, [] ++ ts⟩
  exact Step.drop

/-- Let the programs take statements in the given order, as far as `run` answers them. -/
def follow (run : (s : S) → σ → Option (A s × σ)) : List ℕ → World S A ε σ → Option (World S A ε σ)
  | [], w => some w
  | i :: rest, w =>
    match w.threads[i]? with
    | some (.op s k) =>
      match run s w.state with
      | some (a, y) => follow run rest ⟨⟨s, a⟩ :: w.trace, y, w.threads.set i (k a)⟩
      | none => none
    | _ => none

/-- The first statement of a schedule. -/
theorem follow_cons {run : (s : S) → σ → Option (A s × σ)}
    {T : World S A ε σ → World S A ε σ → Prop}
    (hT : ∀ tr x s k a y before after, run s x = some (a, y) →
      T ⟨tr, x, before ++ .op s k :: after⟩ ⟨⟨s, a⟩ :: tr, y, before ++ k a :: after⟩)
    {i : ℕ} {rest : List ℕ} {w w' : World S A ε σ} (h : follow run (i :: rest) w = some w') :
    ∃ w₁, T w w₁ ∧ follow run rest w₁ = some w' := by
  rw [follow] at h
  split at h
  next s k hthread =>
    split at h
    next a y hstep =>
      refine ⟨_, ?_, h⟩
      obtain ⟨hlt, hget⟩ := List.getElem?_eq_some_iff.mp hthread
      have hthreads : w.threads = w.threads.take i ++ .op s k :: w.threads.drop (i + 1) := by
        rw [← hget, List.getElem_cons_drop, List.take_append_drop]
      have hact := hT w.trace w.state s k a y (w.threads.take i) (w.threads.drop (i + 1)) hstep
      rw [List.set_eq_take_append_cons_drop, if_pos hlt]
      rwa [← hthreads] at hact
    next => cases h
  next => cases h

/-- A schedule that can be followed is a sequence of steps of any relation that has its
statements. -/
theorem follow_rel {run : (s : S) → σ → Option (A s × σ)}
    {T : World S A ε σ → World S A ε σ → Prop}
    (hT : ∀ tr x s k a y before after, run s x = some (a, y) →
      T ⟨tr, x, before ++ .op s k :: after⟩ ⟨⟨s, a⟩ :: tr, y, before ++ k a :: after⟩)
    {schedule : List ℕ} {w w' : World S A ε σ} (h : follow run schedule w = some w') :
    ReflTransGen T w w' := by
  induction schedule generalizing w with
  | nil =>
    obtain rfl := Option.some.inj h
    exact .refl
  | cons i rest ih =>
    obtain ⟨w₁, hfirst, hrest⟩ := follow_cons hT h
    exact .head hfirst (ih hrest)

/-- A schedule that can be followed is an interleaving. -/
theorem follow_steps {run : (s : S) → σ → Option (A s × σ)}
    (hrun : ∀ s x a y, run s x = some (a, y) → guard s x ∧ exec s x a y) {schedule : List ℕ}
    {w w' : World S A ε σ} (h : follow run schedule w = some w') :
    Steps exec env spawn guard w w' := by
  refine follow_rel ?_ h
  intro tr x s k a y before after hstep
  obtain ⟨hg, hs⟩ := hrun s x a y hstep
  exact Step.act hg hs

/-- What every guarded statement and the environment preserve, every interleaving preserves. -/
theorem Steps.inv {I : List (Sigma A) → σ → Prop}
    (hact : ∀ tr x s a y, I tr x → guard s x → exec s x a y → I (⟨s, a⟩ :: tr) y)
    (henv : ∀ tr x y, I tr x → env x y → I tr y) {w w' : World S A ε σ}
    (h : Steps exec env spawn guard w w') (h0 : I w.trace w.state) : I w'.trace w'.state := by
  induction h with
  | refl => exact h0
  | tail _ hstep ih =>
    cases hstep with
    | spawn _ => exact ih
    | act hg hs => exact hact _ _ _ _ _ ih hg hs
    | drop => exact ih
    | env he => exact henv _ _ _ ih he

/-- A preorder that relates the states around every step relates the ends of every
interleaving. -/
theorem Steps.rel {R : σ → σ → Prop} (hrefl : ∀ x, R x x)
    (htrans : ∀ x y z, R x y → R y z → R x z)
    (hact : ∀ x s a y, guard s x → exec s x a y → R x y) (henv : ∀ x y, env x y → R x y)
    {w w' : World S A ε σ} (h : Steps exec env spawn guard w w') : R w.state w'.state := by
  refine Steps.inv (I := fun _ x => R w.state x) ?_ ?_ h (hrefl _)
  · exact fun _ x s a y hx hg hs => htrans _ _ _ hx (hact x s a y hg hs)
  · exact fun _ x y hx he => htrans _ _ _ hx (henv x y he)

end

section Tokens
variable {S : Type u} {A : S → Type} {ε κ α β : Type} (gain cost : S → κ → ℕ)

/-- From a purse, every statement is paid for with tokens at hand. -/
def Pays (p : Prog S A ε α) (purse : κ → ℕ) : Prop :=
  Prog.wp (fun s c => ∀ key, cost s key ≤ c key)
    (fun s c _ c' => ∀ key, c' key = c key - cost s key + gain s key) p (fun _ _ => True) purse

/-- A program that pays for each statement with tokens it earned itself. -/
def Solvent (p : Prog S A ε α) : Prop := ∀ purse, Pays gain cost p purse

variable {gain cost}

theorem solvent_ret (a : α) : Solvent gain cost (.ret a : Prog S A ε α) := fun _ => trivial

theorem solvent_fail (e : ε) : Solvent gain cost (.fail e : Prog S A ε α) := fun _ => trivial

theorem solvent_free {s : S} (h : ∀ key, cost s key = 0) :
    Solvent gain cost (Prog.stmt s : Prog S A ε (A s)) :=
  fun _ => ⟨fun key => h key ▸ Nat.zero_le _, fun _ _ _ => trivial⟩

theorem solvent_bind {p : Prog S A ε α} {f : α → Prog S A ε β} (hp : Solvent gain cost p)
    (hf : ∀ a, Solvent gain cost (f a)) : Solvent gain cost (p >>= f) := by
  intro purse
  refine Prog.wp_bind.mpr (Prog.wp_mono (fun r c _ => ?_) (hp purse))
  cases r with
  | ok a => exact hf a c
  | error e => exact trivial

/-- A statement that earns what the next one costs. -/
theorem solvent_pair {s t : S} {f : A t → Prog S A ε β} (hs : ∀ key, cost s key = 0)
    (ht : ∀ key, cost t key ≤ gain s key) (hf : ∀ a, Solvent gain cost (f a)) :
    Solvent gain cost (Prog.stmt s >>= fun _ => Prog.stmt t >>= f) := by
  intro purse
  refine ⟨fun key => hs key ▸ Nat.zero_le _, fun _ c hc => ⟨fun key => ?_, fun a c' _ => hf a c'⟩⟩
  rw [hc key]
  exact (ht key).trans (Nat.le_add_left _ _)

theorem solvent_attempt {p : Prog S A ε α} (hp : Solvent gain cost p) :
    Solvent gain cost p.attempt :=
  fun purse => Prog.wp_attempt.mpr (hp purse)

theorem solvent_ofExcept (r : Except ε α) :
    Solvent gain cost (Prog.ofExcept r : Prog S A ε α) := fun _ => Prog.wp_ofExcept.mpr trivial

theorem solvent_forEach {body : β → Prog S A ε Unit} (h : ∀ b, Solvent gain cost (body b))
    (l : List β) : Solvent gain cost (Prog.forEach body l) := by
  intro purse
  refine Prog.wp_forEach (fun _ _ => True) (fun _ _ => trivial) (fun b _ c _ => ?_) trivial
  refine Prog.wp_mono (fun r _ _ => ?_) (h b c)
  cases r <;> trivial

theorem solvent_collect {body : β → Prog S A ε α} (h : ∀ b, Solvent gain cost (body b))
    (l : List β) : Solvent gain cost (Prog.collect body l) := by
  intro purse
  refine Prog.wp_collect (fun _ => True) (fun _ _ _ => trivial) (fun b c _ => ?_) trivial
  refine Prog.wp_mono (fun r _ _ => ?_) (h b c)
  cases r <;> trivial

variable {σ : Type v} {exec : (s : S) → σ → A s → σ → Prop} {env : σ → σ → Prop}
  {spawn : Prog S A ε Unit → Prop} {guard : S → σ → Prop} {init : σ}

/-- The amount a trace earned or spent on one key. -/
def traceTotal (amount : S → κ → ℕ) (tr : List (Sigma A)) (key : κ) : ℕ :=
  (tr.map fun e => amount e.1 key).sum

/-- When every program is solvent, no interleaving spends more than it
earned. -/
theorem Steps.cost_le_gain (hspawn : ∀ p, spawn p → Solvent gain cost p)
    {w : World S A ε σ} (h : Steps exec env spawn guard (.start init) w) (key : κ) :
    traceTotal cost w.trace key ≤ traceTotal gain w.trace key := by
  have hwallets : ∃ wallets : List (Prog S A ε Unit × (κ → ℕ)), wallets.map Prod.fst = w.threads ∧
      (∀ p ∈ wallets, Pays gain cost p.1 p.2) ∧
      traceTotal cost w.trace key + (wallets.map fun p => p.2 key).sum ≤
        traceTotal gain w.trace key := by
    induction h with
    | refl => exact ⟨[], rfl, by simp, by simp [World.start, traceTotal]⟩
    | tail _ hstep ih =>
      obtain ⟨wallets, hts, hall, hsum⟩ := ih
      cases hstep with
      | spawn hp =>
        refine ⟨(_, fun _ => 0) :: wallets, by rw [List.map_cons, hts], ?_, by simpa using hsum⟩
        intro p hmem
        rcases List.mem_cons.mp hmem with rfl | hmem
        · exact hspawn _ hp _
        · exact hall p hmem
      | @act tr x y before after s k a hg hs =>
        obtain ⟨wb, wr, rfl, rfl, hr⟩ := List.map_eq_append_iff.mp hts
        obtain ⟨p, wa, rfl, hp, rfl⟩ := List.map_eq_cons_iff.mp hr
        have hsolvent := hall p (by simp)
        rw [hp] at hsolvent
        let purse : κ → ℕ := fun key => p.2 key - cost s key + gain s key
        refine ⟨wb ++ (k a, purse) :: wa, by simp, ?_, ?_⟩
        · intro p' hp'
          simp only [List.mem_append, List.mem_cons] at hp'
          rcases hp' with hp' | rfl | hp'
          · exact hall p' (by simp [hp'])
          · exact hsolvent.2 a purse fun _ => rfl
          · exact hall p' (by simp [hp'])
        · have hpay := hsolvent.1 key
          simp only [traceTotal, List.map_append, List.map_cons, List.sum_append,
            List.sum_cons] at hsum ⊢
          simp only [purse]
          omega
      | drop =>
        obtain ⟨wb, wr, rfl, rfl, hr⟩ := List.map_eq_append_iff.mp hts
        obtain ⟨p, wa, rfl, _, rfl⟩ := List.map_eq_cons_iff.mp hr
        refine ⟨wb ++ wa, by simp, fun p' hp' => hall p' ?_, ?_⟩
        · rcases List.mem_append.mp hp' with h | h
          · simp [h]
          · simp [h]
        · simp only [List.map_append, List.map_cons, List.sum_append, List.sum_cons] at hsum ⊢
          omega
      | env _ => exact ⟨wallets, hts, hall, hsum⟩
  obtain ⟨wallets, _, _, hsum⟩ := hwallets
  omega

end Tokens

end VibeKanban.Lib
