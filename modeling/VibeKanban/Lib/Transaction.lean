import Mathlib.Logic.Relation
import VibeKanban.Lib.Prog

/-! Calls that each run in one exclusive transaction and also change durable state outside the
database: the steps of any number of them, with failures and crashes, and the rule for what holds
in every state they reach. -/
namespace VibeKanban.Lib.Tx
open Relation

universe u v

section
variable {S : Type u} {A : S → Type} {ε R : Type} {L δ φ : Type v}

/-- A statement that was run, by which call, and the outside state it found. -/
structure Event (A : S → Type) (L φ : Type v) where
  call : L
  statement : Sigma A
  before : φ

/-- What the call that holds the transaction sees: its working copy of the database, the outside
state, and the statements run so far by all calls, newest first. -/
structure View (A : S → Type) (L δ φ : Type v) where
  work : δ
  outside : φ
  history : List (Event A L φ)

/-- A call in its transaction: what is left of it, its working copy, and what it found. -/
structure Session (S : Type u) (A : S → Type) (ε R : Type) (L δ φ : Type v) where
  call : L
  rest : Prog S A ε R
  work : δ
  start : View A L δ φ

/-- What the call has returned. -/
def Session.returned (s : Session S A ε R L δ φ) : Option R :=
  match s.rest with
  | .ret r => some r
  | _ => none

theorem Session.rest_of_returned {s : Session S A ε R L δ φ} {r : R} (h : s.returned = some r) :
    s.rest = .ret r := by
  unfold returned at h
  split at h
  next hrest =>
    rw [hrest, Option.some.inj h]
  next => cases h

/-- The committed database, the outside state, and the call that holds the transaction. A call that
waits for the transaction has done nothing yet. -/
structure Shared (S : Type u) (A : S → Type) (ε R : Type) (L δ φ : Type v) where
  db : δ
  outside : φ
  history : List (Event A L φ)
  active : Option (Session S A ε R L δ φ)

def Shared.init (db : δ) (outside : φ) : Shared S A ε R L δ φ := ⟨db, outside, [], none⟩

variable (body : L → Prog S A ε R) (exec : (s : S) → δ × φ → A s → δ × φ → Prop)

/-- One statement of a call. -/
def stepView (c : L) (s : S) (x : View A L δ φ) (a : A s) (y : View A L δ φ) : Prop :=
  exec s (x.work, x.outside) a (y.work, y.outside) ∧ y.history = ⟨c, ⟨s, a⟩, x.outside⟩ :: x.history

/-- A call begins when no other holds the transaction, and then runs statement by statement. It
commits when it returns, unless the commit fails, and is rolled back when it fails or is lost. -/
inductive Step : Shared S A ε R L δ φ → Shared S A ε R L δ φ → Prop where
  | begin {db out h} (c : L) :
    Step ⟨db, out, h, none⟩ ⟨db, out, h, some ⟨c, body c, db, ⟨db, out, h⟩⟩⟩
  | act {db out h c start} {s : S} {k : A s → Prog S A ε R} {work : δ} {a : A s}
      {y : View A L δ φ} : stepView exec c s ⟨work, out, h⟩ a y →
    Step ⟨db, out, h, some ⟨c, .op s k, work, start⟩⟩
      ⟨db, y.outside, y.history, some ⟨c, k a, y.work, start⟩⟩
  | commit {db out h c r work start} :
    Step ⟨db, out, h, some ⟨c, .ret r, work, start⟩⟩ ⟨work, out, h, none⟩
  | commitFails {db out h c r work start} :
    Step ⟨db, out, h, some ⟨c, .ret r, work, start⟩⟩ ⟨db, out, h, none⟩
  | fail {db out h c e work start} :
    Step ⟨db, out, h, some ⟨c, .fail e, work, start⟩⟩ ⟨db, out, h, none⟩
  | lose {db out h session} : Step ⟨db, out, h, some session⟩ ⟨db, out, h, none⟩

abbrev Steps : Shared S A ε R L δ φ → Shared S A ε R L δ φ → Prop :=
  ReflTransGen (Step body exec)

/-- The call keeps `Mid` at every statement and at its end, and returns only with `Done`. -/
def Keeps (Mid : View A L δ φ → View A L δ φ → Prop)
    (Done : L → R → View A L δ φ → Prop) (c : L) (start : View A L δ φ) (p : Prog S A ε R)
    (x : View A L δ φ) : Prop :=
  Prog.wp (fun _ => Mid start) (stepView exec c) p (fun r y => Mid start y ∧ match r with
    | .ok a => Done c a y
    | .error _ => True) x

variable {body exec} {Inv : View A L δ φ → Prop} {Mid : View A L δ φ → View A L δ φ → Prop}
  {Done : L → R → View A L δ φ → Prop}

/-- The state between two calls, or inside one. -/
def Consistent (exec : (s : S) → δ × φ → A s → δ × φ → Prop) (Inv : View A L δ φ → Prop)
    (Mid : View A L δ φ → View A L δ φ → Prop) (Done : L → R → View A L δ φ → Prop)
    (w : Shared S A ε R L δ φ) : Prop :=
  Inv ⟨w.db, w.outside, w.history⟩ ∧ ∀ s ∈ w.active, s.start.work = w.db ∧
    Mid s.start ⟨s.work, w.outside, w.history⟩ ∧
    Keeps exec Mid Done s.call s.start s.rest ⟨s.work, w.outside, w.history⟩

theorem Keeps.mid {c : L} {start x : View A L δ φ} {p : Prog S A ε R}
    (h : Keeps exec Mid Done c start p x) : Mid start x := by
  cases p with
  | ret a => exact h.1
  | fail e => exact h.1
  | op s k => exact h.1

/-- If every call keeps to `Mid` from a state with `Inv`, what a call has reached makes the durable
state `Inv` with the old database, and a finished call with its own, then every reachable state is
consistent. -/
theorem Steps.consistent
    (hbody : ∀ c x, Inv x → Keeps exec Mid Done c x (body c) x)
    (hmid : ∀ start x, Mid start x → Inv ⟨start.work, x.outside, x.history⟩)
    (hdone : ∀ c r start x, Mid start x → Done c r x → Inv x)
    {w w' : Shared S A ε R L δ φ} (h : Steps body exec w w')
    (hw : Consistent exec Inv Mid Done w) : Consistent exec Inv Mid Done w' := by
  induction h with
  | refl => exact hw
  | tail _ hstep ih =>
    cases hstep with
    | begin c =>
      refine ⟨ih.1, ?_⟩
      rintro s hs
      obtain rfl := Option.some.inj hs
      have hkeeps := hbody c _ ih.1
      exact ⟨rfl, hkeeps.mid, hkeeps⟩
    | act hs =>
      obtain ⟨hdb, _, hkeeps⟩ := ih.2 _ rfl
      have hrest := hkeeps.2 _ _ hs
      refine ⟨?_, ?_⟩
      · have hinv := hmid _ _ (Keeps.mid hrest)
        rwa [hdb] at hinv
      · rintro s hs'
        obtain rfl := Option.some.inj hs'
        exact ⟨hdb, Keeps.mid hrest, hrest⟩
    | commit =>
      obtain ⟨_, hm, hkeeps⟩ := ih.2 _ rfl
      exact ⟨hdone _ _ _ _ hm hkeeps.2, nofun⟩
    | commitFails => exact ⟨ih.1, nofun⟩
    | fail => exact ⟨ih.1, nofun⟩
    | lose => exact ⟨ih.1, nofun⟩

/-- Let the call in the transaction run statements as far as `run` answers them. -/
def follow (run : (s : S) → δ × φ → A s × (δ × φ)) : ℕ → Shared S A ε R L δ φ → Shared S A ε R L δ φ
  | 0, w => w
  | n + 1, w =>
    match w.active with
    | some ⟨c, .op s k, work, start⟩ =>
      let (a, work', outside) := run s (work, w.outside)
      follow run n ⟨w.db, outside, ⟨c, ⟨s, a⟩, w.outside⟩ :: w.history, some ⟨c, k a, work', start⟩⟩
    | _ => w

theorem follow_steps {run : (s : S) → δ × φ → A s × (δ × φ)}
    (hrun : ∀ s x, exec s x (run s x).1 (run s x).2) (n : ℕ) (w : Shared S A ε R L δ φ) :
    Steps body exec w (follow run n w) := by
  induction n generalizing w with
  | zero => exact .refl
  | succ n ih =>
    rw [follow]
    split
    next c s k work start hactive =>
      obtain ⟨db, outside, history, active⟩ := w
      cases hactive
      refine .head ?_ (ih _)
      exact Step.act (y := ⟨_, _, _⟩) ⟨hrun s (work, outside), rfl⟩
    next => exact .refl

/-- A call begins, if no other holds the transaction. -/
def begun (body : L → Prog S A ε R) (c : L) (w : Shared S A ε R L δ φ) : Shared S A ε R L δ φ :=
  match w.active with
  | none => { w with active := some ⟨c, body c, w.db, ⟨w.db, w.outside, w.history⟩⟩ }
  | some _ => w

/-- A call that has returned commits. -/
def committed (w : Shared S A ε R L δ φ) : Shared S A ε R L δ φ :=
  match w.active with
  | some ⟨_, .ret _, work, _⟩ => { w with db := work, active := none }
  | _ => w

theorem begun_steps (c : L) (w : Shared S A ε R L δ φ) : Steps body exec w (begun body c w) := by
  unfold begun
  split
  next hactive =>
    obtain ⟨db, outside, history, active⟩ := w
    cases hactive
    exact .single (.begin c)
  next => exact .refl

theorem committed_step {w : Shared S A ε R L δ φ} {s : Session S A ε R L δ φ} {r : R}
    (hs : s ∈ w.active) (hr : s.rest = .ret r) : Step body exec w (committed w) := by
  obtain ⟨db, outside, history, active⟩ := w
  obtain ⟨c, rest, work, start⟩ := s
  cases hs
  cases hr
  exact .commit

theorem committed_steps (w : Shared S A ε R L δ φ) : Steps body exec w (committed w) := by
  unfold committed
  split
  next hactive =>
    obtain ⟨db, outside, history, active⟩ := w
    cases hactive
    exact .single .commit
  next => exact .refl

theorem committed_active {w : Shared S A ε R L δ φ} {s : Session S A ε R L δ φ} {r : R}
    (hs : s ∈ w.active) (hr : s.rest = .ret r) : (committed w).active = none := by
  obtain ⟨db, outside, history, active⟩ := w
  obtain ⟨c, rest, work, start⟩ := s
  cases hs
  cases hr
  rfl

end

end VibeKanban.Lib.Tx
