import VibeKanban.Lib.Interleaving

/-! Programs that follow a discipline: a position is kept for each of them, it says which statement
may come next, and invariants speak about the positions of all programs under way. -/
namespace VibeKanban.Lib
open Relation

universe u v

/-- Which statements a program may run at a position, which answers can reach it there, and where
it stands afterwards. A program may end only at a final position. -/
structure Discipline (S : Type u) (A : S → Type) (G : Type v) where
  allowed : S → G → Prop
  possible : (s : S) → A s → G → Prop
  next : (s : S) → A s → G → G
  final : G → Prop

namespace Discipline
variable {S : Type u} {A : S → Type} {ε α β : Type} {G : Type v} (D : Discipline S A G)

/-- The position moves with every possible answer. -/
def Moves (s : S) (g : G) (a : A s) (g' : G) : Prop := D.possible s a g ∧ g' = D.next s a g

/-- The program keeps to the discipline from a position, and its outcome meets `Q`. -/
def Keeps (p : Prog S A ε α) (Q : Except ε α → G → Prop) (g : G) : Prop :=
  Prog.wp D.allowed (fun s g a g' => D.Moves s g a g') p Q g

def Follows (p : Prog S A ε α) (g : G) : Prop := D.Keeps p (fun _ g => D.final g) g

variable {D}

theorem keeps_bind {p : Prog S A ε α} {f : α → Prog S A ε β} {Q : Except ε β → G → Prop} {g : G} :
    D.Keeps (p >>= f) Q g ↔ D.Keeps p (fun r g => match r with
      | .ok a => D.Keeps (f a) Q g
      | .error e => Q (.error e) g) g := Prog.wp_bind

theorem keeps_mono {p : Prog S A ε α} {Q Q' : Except ε α → G → Prop} {g : G}
    (h : D.Keeps p Q g) (hQ : ∀ r g, Q r g → Q' r g) : D.Keeps p Q' g := Prog.wp_mono hQ h

theorem keeps_stmt {s : S} {Q : Except ε (A s) → G → Prop} {g : G} (hs : D.allowed s g)
    (h : ∀ a, D.possible s a g → Q (.ok a) (D.next s a g)) :
    D.Keeps (Prog.stmt s : Prog S A ε (A s)) Q g := by
  refine ⟨hs, ?_⟩
  rintro a g' ⟨ha, rfl⟩
  exact h a ha

theorem keeps_pure {a : α} {Q : Except ε α → G → Prop} {g : G} (h : Q (.ok a) g) :
    D.Keeps (pure a : Prog S A ε α) Q g := h

theorem keeps_ofExcept {r : Except ε α} {Q : Except ε α → G → Prop} {g : G} (h : Q r g) :
    D.Keeps (Prog.ofExcept r : Prog S A ε α) Q g := Prog.wp_ofExcept.mpr h

/-- A statement and what follows it. -/
theorem keeps_step {s : S} {f : A s → Prog S A ε β} {Q : Except ε β → G → Prop} {g : G}
    (hs : D.allowed s g) (h : ∀ a, D.possible s a g → D.Keeps (f a) Q (D.next s a g)) :
    D.Keeps (Prog.stmt s >>= f) Q g := keeps_bind.mpr (keeps_stmt hs h)

/-- A body that returns to its position can be repeated. -/
theorem keeps_forEach {body : β → Prog S A ε Unit} {g : G} {l : List β}
    (h : ∀ b ∈ l, D.Keeps (body b) (fun _ g' => g' = g) g) :
    D.Keeps (Prog.forEach body l) (fun _ g' => g' = g) g := by
  refine Prog.wp_forEach (fun rest g' => g' = g ∧ ∀ b ∈ rest, b ∈ l) (fun _ hg => hg.1) ?_
    ⟨rfl, fun b hb => hb⟩
  rintro b rest g' ⟨rfl, hrest⟩
  refine Prog.wp_mono ?_ (h b (hrest b List.mem_cons_self))
  rintro r g'' rfl
  cases r with
  | ok _ => exact ⟨rfl, fun b hb => hrest b (List.mem_cons_of_mem _ hb)⟩
  | error e => rfl

theorem keeps_collect {body : β → Prog S A ε α} {g : G} {l : List β}
    (h : ∀ b, D.Keeps (body b) (fun _ g' => g' = g) g) :
    D.Keeps (Prog.collect body l) (fun _ g' => g' = g) g := by
  refine Prog.wp_collect (fun g' => g' = g) (fun _ _ hg => hg) ?_ rfl
  rintro b g' rfl
  refine Prog.wp_mono ?_ (h b)
  rintro r g'' rfl
  cases r <;> rfl

/-- What every allowed statement keeps holds after a play. -/
theorem Keeps.play {σ : Type v} {I : σ → Prop} {run : (s : S) → σ → Option (A s × σ)}
    (hpossible : ∀ s a g, D.possible s a g)
    (hrun : ∀ s g x a y, D.allowed s g → run s x = some (a, y) → I x → I y)
    {p : Prog S A ε α} {Q : Except ε α → G → Prop} {g : G} (h : D.Keeps p Q g) {x y : σ}
    {r : Except ε α} (hplay : p.play run x = some (r, y)) (hx : I x) : I y := by
  induction p generalizing g x with
  | ret a =>
    obtain ⟨_, rfl⟩ := Prod.mk.inj (Option.some.inj hplay)
    exact hx
  | fail e =>
    obtain ⟨_, rfl⟩ := Prod.mk.inj (Option.some.inj hplay)
    exact hx
  | op s k ih =>
    obtain ⟨⟨a, z⟩, hstep, hrest⟩ := Option.bind_eq_some_iff.mp hplay
    exact ih a (h.2 a _ ⟨hpossible s a g, rfl⟩) hrest (hrun s g x a z h.1 hstep hx)

variable (D) in
/-- The program may run anywhere and leaves the position as it is. -/
def Neutral (p : Prog S A ε α) : Prop := ∀ g, D.Keeps p (fun _ g' => g' = g) g

theorem Neutral.stmt {s : S} (hs : ∀ g, D.allowed s g) (hnext : ∀ a g, D.next s a g = g) :
    D.Neutral (Prog.stmt s : Prog S A ε (A s)) :=
  fun g => keeps_stmt (hs g) fun a _ => hnext a g

/-- What follows a neutral program starts where it started. -/
theorem Neutral.keeps_bind {p : Prog S A ε α} {f : α → Prog S A ε β} {Q : Except ε β → G → Prop}
    {g : G} (hp : D.Neutral p) (hf : ∀ a, D.Keeps (f a) Q g) (herror : ∀ e, Q (.error e) g) :
    D.Keeps (p >>= f) Q g := by
  refine Discipline.keeps_bind.mpr (keeps_mono (hp g) ?_)
  rintro r _ rfl
  cases r with
  | ok a => exact hf a
  | error e => exact herror e

theorem Neutral.bind {p : Prog S A ε α} {f : α → Prog S A ε β} (hp : D.Neutral p)
    (hf : ∀ a, D.Neutral (f a)) : D.Neutral (p >>= f) :=
  fun g => hp.keeps_bind (fun a => hf a g) fun _ => rfl

theorem Neutral.pure (a : α) : D.Neutral (Pure.pure a : Prog S A ε α) := fun _ => rfl

theorem Neutral.fail (e : ε) : D.Neutral (.fail e : Prog S A ε α) := fun _ => rfl

theorem Neutral.ofExcept (r : Except ε α) : D.Neutral (Prog.ofExcept r : Prog S A ε α) :=
  fun _ => keeps_ofExcept rfl

theorem Neutral.forEach {body : β → Prog S A ε Unit} (h : ∀ b, D.Neutral (body b)) (l : List β) :
    D.Neutral (Prog.forEach body l) := fun g => keeps_forEach fun b _ => h b g

theorem Neutral.collect {body : β → Prog S A ε α} (h : ∀ b, D.Neutral (body b)) (l : List β) :
    D.Neutral (Prog.collect body l) := fun g => keeps_collect fun b => h b g

end Discipline

section Runs
variable {S : Type u} {A : S → Type} {ε : Type} {σ : Type v} {G : Type v}
  (exec : (s : S) → σ → A s → σ → Prop) (env : σ → σ → Prop)
  (spawn : Prog S A ε Unit → Prop) (C : World S A ε σ → World S A ε σ → Prop)

/-- Interleavings all of whose steps meet a condition. -/
abbrev StepsWhen : World S A ε σ → World S A ε σ → Prop :=
  ReflTransGen fun w w' => Step exec env spawn (fun _ _ => True) w w' ∧ C w w'

variable {exec env spawn C} {D : Discipline S A G}

/-- The programs under way with their positions. -/
def Positioned (D : Discipline S A G) (threads : List (Prog S A ε Unit)) (gs : List G) : Prop :=
  List.Forall₂ D.Follows threads gs

/-- The program in the middle has its own position. -/
theorem Positioned.split {before after : List (Prog S A ε Unit)} {p : Prog S A ε Unit} {gs : List G}
    (h : Positioned D (before ++ p :: after) gs) : ∃ gb g ga, gs = gb ++ g :: ga ∧
      Positioned D before gb ∧ D.Follows p g ∧ Positioned D after ga := by
  have hbefore := List.forall₂_take before.length h
  have hrest := List.forall₂_drop before.length h
  rw [List.take_left] at hbefore
  rw [List.drop_left] at hrest
  obtain ⟨g, ga, hg, ha, hdrop⟩ := List.forall₂_cons_left_iff.mp hrest
  refine ⟨gs.take before.length, g, ga, ?_, hbefore, hg, ha⟩
  rw [← hdrop, List.take_append_drop]

/-- What starts with the programs at their start position and is kept by every statement that
follows the discipline, by abandoned programs and by the environment, holds in every
interleaving. -/
theorem StepsWhen.positions {I : List (Sigma A) → σ → List G → Prop} {start : G}
    (hfollows : ∀ p, spawn p → D.Follows p start)
    (hspawn : ∀ tr x gs, I tr x gs → I tr x (start :: gs))
    (hact : ∀ tr x y before after s k a gb g ga, Positioned D before gb → Positioned D after ga →
      D.Follows (ε := ε) (.op s k) g → I tr x (gb ++ g :: ga) → exec s x a y →
      C ⟨tr, x, before ++ .op s k :: after⟩ ⟨⟨s, a⟩ :: tr, y, before ++ k a :: after⟩ →
      D.possible s a g ∧ I (⟨s, a⟩ :: tr) y (gb ++ D.next s a g :: ga))
    (hdrop : ∀ tr x before after p gb g ga, Positioned D before gb → Positioned D after ga →
      D.Follows (ε := ε) p g → I tr x (gb ++ g :: ga) →
      C ⟨tr, x, before ++ p :: after⟩ ⟨tr, x, before ++ after⟩ → I tr x (gb ++ ga))
    (henv : ∀ tr x y gs, I tr x gs → env x y → I tr y gs)
    {w w' : World S A ε σ} (h : StepsWhen exec env spawn C w w') {gs : List G}
    (hgs : Positioned D w.threads gs) (hI : I w.trace w.state gs) :
    ∃ gs', Positioned D w'.threads gs' ∧ I w'.trace w'.state gs' := by
  induction h with
  | refl => exact ⟨gs, hgs, hI⟩
  | tail _ hstep ih =>
    obtain ⟨gs, hgs, hI⟩ := ih
    obtain ⟨hstep, hC⟩ := hstep
    cases hstep with
    | spawn hp => exact ⟨start :: gs, .cons (hfollows _ hp) hgs, hspawn _ _ _ hI⟩
    | act _ hs =>
      obtain ⟨gb, g, ga, rfl, hb, hg, ha⟩ := hgs.split
      obtain ⟨hpossible, hI'⟩ := hact _ _ _ _ _ _ _ _ gb g ga hb ha hg hI hs hC
      exact ⟨gb ++ D.next _ _ g :: ga,
        List.rel_append hb (.cons (hg.2 _ _ ⟨hpossible, rfl⟩) ha), hI'⟩
    | drop =>
      obtain ⟨gb, g, ga, rfl, hb, hg, ha⟩ := hgs.split
      exact ⟨gb ++ ga, List.rel_append hb ha, hdrop _ _ _ _ _ gb g ga hb ha hg hI hC⟩
    | env he => exact ⟨gs, hgs, henv _ _ _ _ hI he⟩

/-- Programs start one after another when starting meets the condition. -/
theorem stepsWhen_spawn {x : σ} {threads : List (Prog S A ε Unit)}
    (hC : ∀ tr x ts p, C ⟨tr, x, ts⟩ ⟨tr, x, p :: ts⟩) (h : ∀ p ∈ threads, spawn p) :
    StepsWhen exec env spawn C (.start x) ⟨[], x, threads⟩ := by
  induction threads with
  | nil => exact .refl
  | cons p rest ih =>
    have hrest := ih fun q hq => h q (List.mem_cons_of_mem _ hq)
    exact hrest.tail ⟨Step.spawn (h p List.mem_cons_self), hC _ _ _ _⟩

/-- A schedule of one program alone, each of whose statements passes a check that stands for the
condition when there is no other program. -/
theorem follow_alone {run : (s : S) → σ → Option (A s × σ)}
    (hrun : ∀ s x a y, run s x = some (a, y) → exec s x a y)
    (hC : ∀ tr x s k a y, run s x = some (a, y) →
      C ⟨tr, x, [.op s k]⟩ ⟨⟨s, a⟩ :: tr, y, [k a]⟩)
    {schedule : List ℕ} {w w' : World S A ε σ} (h : follow run schedule w = some w')
    (hw : w.threads.length = 1) :
    StepsWhen exec env spawn C w w' ∧ w'.threads.length = 1 := by
  have hsteps : Relation.ReflTransGen (fun w w' : World S A ε σ => w.threads.length = 1 →
      StepsWhen exec env spawn C w w' ∧ w'.threads.length = 1) w w' := by
    refine follow_rel ?_ h
    intro tr x s k a y before after hstep hlength
    rw [List.length_append, List.length_cons] at hlength
    obtain rfl := List.length_eq_zero_iff.mp (by omega : before.length = 0)
    obtain rfl := List.length_eq_zero_iff.mp (by omega : after.length = 0)
    exact ⟨.single ⟨Step.first trivial (hrun s x a y hstep), hC tr x s k a y hstep⟩, rfl⟩
  clear h
  induction hsteps with
  | refl => exact ⟨.refl, hw⟩
  | tail _ hnext ih =>
    obtain ⟨hbefore, halone⟩ := ih
    obtain ⟨hlast, halone'⟩ := hnext halone
    exact ⟨hbefore.trans hlast, halone'⟩

/-- A schedule each of whose statements passes a check meets the condition the check stands for. -/
theorem follow_stepsWhen {run : (s : S) → σ → Option (A s × σ)}
    (hrun : ∀ s x a y, run s x = some (a, y) → exec s x a y)
    (hC : ∀ tr x s k a y before after, run s x = some (a, y) →
      C ⟨tr, x, before ++ .op s k :: after⟩ ⟨⟨s, a⟩ :: tr, y, before ++ k a :: after⟩)
    {schedule : List ℕ} {w w' : World S A ε σ} (h : follow run schedule w = some w') :
    StepsWhen exec env spawn C w w' := by
  refine follow_rel ?_ h
  intro tr x s k a y before after hstep
  exact ⟨Step.act trivial (hrun s x a y hstep), hC tr x s k a y before after hstep⟩

end Runs

end VibeKanban.Lib
