import Mathlib.Data.List.Basic
import Mathlib.Logic.Relation
import VibeKanban.Lib.Except

/-! Depth-first cycle detection with visit marks, and breadth-first search with a queue. -/
namespace VibeKanban.Lib
open Relation

inductive VisitState where
  | visiting | visited
  deriving DecidableEq, Repr

section
variable {ι : Type} [DecidableEq ι] (next : ι → List ι)

/-- One step along `next`. -/
def Next (a b : ι) : Prop := b ∈ next a

/-- The newest mark of an element comes first. -/
abbrev Marks (ι : Type) := List (ι × VisitState)

/-- Visit an element and everything below it; an element met while it is still being visited is
on a cycle and is returned as the error. -/
def visit : ℕ → ι → Marks ι → Except ι (Marks ι)
  | 0, id, _ => .error id
  | fuel + 1, id, marks =>
    match marks.lookup id with
    | some .visiting => .error id
    | some .visited => .ok marks
    | none => do
      let below ← (next id).foldlM (fun marks target => visit fuel target marks)
        ((id, .visiting) :: marks)
      return (id, .visited) :: below

/-- Pop the head of the queue; a new element is reached and its successors are queued. -/
def explore : ℕ → List ι → List ι → List ι
  | 0, _, reached => reached
  | _ + 1, [], reached => reached
  | fuel + 1, id :: queue, reached =>
    if id ∈ reached then explore fuel queue reached
    else explore fuel (queue ++ next id) (reached ++ [id])

variable {next}

def Settled (marks : Marks ι) (id : ι) : Prop := marks.lookup id = some .visited

def InProgress (marks : Marks ι) (id : ι) : Prop := marks.lookup id = some .visiting

/-- What is settled is closed under `next` and lies on no cycle. -/
structure SettledAcyclic (next : ι → List ι) (marks : Marks ι) : Prop where
  closed : ∀ a, Settled marks a → ∀ b ∈ next a, Settled marks b
  acyclic : ∀ a, Settled marks a → ¬ TransGen (Next next) a a

/-- What a successful visit does to the marks. -/
structure VisitStep (next : ι → List ι) (marks marks' : Marks ι) : Prop where
  sound : SettledAcyclic next marks'
  settled_mono : ∀ a, Settled marks a → Settled marks' a
  inProgress_iff : ∀ a, InProgress marks' a ↔ InProgress marks a

theorem SettledAcyclic.trans {marks : Marks ι} (h : SettledAcyclic next marks) {a b : ι}
    (hab : TransGen (Next next) a b) (ha : Settled marks a) : Settled marks b := by
  induction hab with
  | single hb => exact h.closed a ha _ hb
  | tail _ hb ih => exact h.closed _ ih _ hb

theorem settled_cons_visiting {marks : Marks ι} {id : ι} (hid : marks.lookup id = none) (a : ι) :
    Settled ((id, .visiting) :: marks) a ↔ Settled marks a := by
  by_cases h : a = id
  · subst h
    simp [Settled, hid]
  · simp [Settled, List.lookup_cons, beq_eq_false_iff_ne.mpr h]

theorem settled_cons_visited {marks : Marks ι} {id : ι} (a : ι) :
    Settled ((id, .visited) :: marks) a ↔ a = id ∨ Settled marks a := by
  by_cases h : a = id
  · simp [Settled, h]
  · simp [Settled, List.lookup_cons, beq_eq_false_iff_ne.mpr h, h]

theorem inProgress_cons {marks : Marks ι} {id : ι} {state : VisitState} (a : ι) :
    InProgress ((id, state) :: marks) a ↔
      a = id ∧ state = .visiting ∨ a ≠ id ∧ InProgress marks a := by
  by_cases h : a = id
  · simp [InProgress, h]
  · simp [InProgress, List.lookup_cons, beq_eq_false_iff_ne.mpr h, h]

/-- Finishing an element whose successors are all settled closes no cycle: a cycle would enter
the settled part, which cannot be left. -/
theorem settledAcyclic_finish {marks : Marks ι} {id : ι} (h : SettledAcyclic next marks)
    (hnext : ∀ b ∈ next id, Settled marks b) (hid : ¬ Settled marks id) :
    SettledAcyclic next ((id, .visited) :: marks) := by
  constructor
  · intro a ha b hb
    rw [settled_cons_visited] at ha ⊢
    rcases ha with rfl | ha
    · exact Or.inr (hnext b hb)
    · exact Or.inr (h.closed a ha b hb)
  · intro a ha hcycle
    rw [settled_cons_visited] at ha
    rcases ha with rfl | ha
    · obtain ⟨b, hb, hba⟩ := TransGen.head'_iff.mp hcycle
      rcases reflTransGen_iff_eq_or_transGen.mp hba with rfl | hba
      · exact hid (hnext _ hb)
      · exact hid (h.trans hba (hnext b hb))
    · exact h.acyclic a ha hcycle

/-- Successful visits one after the other. -/
theorem visits_ok {step : Marks ι → ι → Except ι (Marks ι)}
    (hstep : ∀ {marks id marks'}, SettledAcyclic next marks → step marks id = .ok marks' →
      VisitStep next marks marks' ∧ Settled marks' id)
    (targets : List ι) {marks marks' : Marks ι} (hs : SettledAcyclic next marks)
    (h : targets.foldlM step marks = .ok marks') :
    VisitStep next marks marks' ∧ ∀ t ∈ targets, Settled marks' t := by
  induction targets generalizing marks with
  | nil =>
    obtain rfl : marks = marks' := Except.ok.inj h
    exact ⟨⟨hs, fun _ h => h, fun _ => Iff.rfl⟩, by simp⟩
  | cons t rest ih =>
    rw [List.foldlM_cons] at h
    obtain ⟨mid, hmid, h⟩ := except_bind_ok h
    obtain ⟨h1, ht⟩ := hstep hs hmid
    obtain ⟨h2, hrest⟩ := ih h1.sound h
    refine ⟨⟨h2.sound, fun a ha => h2.settled_mono a (h1.settled_mono a ha),
      fun a => (h2.inProgress_iff a).trans (h1.inProgress_iff a)⟩, ?_⟩
    intro x hx
    rcases List.mem_cons.mp hx with rfl | hx
    · exact h2.settled_mono _ ht
    · exact hrest x hx

theorem visit_ok (fuel : ℕ) {id : ι} {marks marks' : Marks ι} (hs : SettledAcyclic next marks)
    (h : visit next fuel id marks = .ok marks') :
    VisitStep next marks marks' ∧ Settled marks' id := by
  induction fuel generalizing id marks marks' with
  | zero => simp [visit] at h
  | succ fuel ih =>
    simp only [visit] at h
    cases hl : marks.lookup id with
    | some state =>
      cases state with
      | visiting => simp [hl] at h
      | visited =>
        simp only [hl] at h
        obtain rfl : marks = marks' := Except.ok.inj h
        exact ⟨⟨hs, fun _ h => h, fun _ => Iff.rfl⟩, hl⟩
    | none =>
      simp only [hl, bind, Except.bind] at h
      set m0 : Marks ι := (id, .visiting) :: marks with hm0
      have hs0 : SettledAcyclic next m0 :=
        ⟨fun a ha b hb => (settled_cons_visiting hl b).mpr
            (hs.closed a ((settled_cons_visiting hl a).mp ha) b hb),
          fun a ha => hs.acyclic a ((settled_cons_visiting hl a).mp ha)⟩
      cases hf : (next id).foldlM (fun marks target => visit next fuel target marks) m0 with
      | error e => simp [hf] at h
      | ok below =>
        simp only [hf] at h
        obtain rfl : (id, .visited) :: below = marks' := Except.ok.inj h
        obtain ⟨hstep, hnext⟩ := visits_ok ih (next id) hs0 hf
        have hid : ¬ Settled below id := by
          have hp := (hstep.inProgress_iff id).mpr ((inProgress_cons id).mpr (Or.inl ⟨rfl, rfl⟩))
          intro hset
          rw [InProgress] at hp
          simp [Settled, hp] at hset
        refine ⟨⟨settledAcyclic_finish hstep.sound hnext hid, ?_, ?_⟩,
          (settled_cons_visited id).mpr (Or.inl rfl)⟩
        · intro a ha
          exact (settled_cons_visited a).mpr
            (Or.inr (hstep.settled_mono a ((settled_cons_visiting hl a).mpr ha)))
        · intro a
          rw [inProgress_cons, hstep.inProgress_iff, hm0, inProgress_cons]
          by_cases ha : a = id
          · simp [ha, InProgress, hl]
          · simp [ha]

theorem explore_reachable (fuel : ℕ) {queue reached : List ι} {b : ι}
    (hb : b ∈ explore next fuel queue reached) :
    b ∈ reached ∨ ∃ a ∈ queue, ReflTransGen (Next next) a b := by
  induction fuel generalizing queue reached with
  | zero => exact Or.inl hb
  | succ fuel ih =>
    cases queue with
    | nil => exact Or.inl hb
    | cons id queue =>
      simp only [explore] at hb
      split_ifs at hb with hid
      · rcases ih hb with h | ⟨a, ha, hab⟩
        · exact Or.inl h
        · exact Or.inr ⟨a, List.mem_cons_of_mem _ ha, hab⟩
      · rcases ih hb with h | ⟨a, ha, hab⟩
        · rcases List.mem_append.mp h with h | h
          · exact Or.inl h
          · exact Or.inr ⟨id, List.mem_cons_self, by rw [List.mem_singleton.mp h]⟩
        · rcases List.mem_append.mp ha with ha | ha
          · exact Or.inr ⟨a, List.mem_cons_of_mem _ ha, hab⟩
          · exact Or.inr ⟨id, List.mem_cons_self, hab.head ha⟩

/-- The elements of a finite part that are not being visited; the depth of a visit is bounded by
them. -/
def unvisited (ids : List ι) (marks : Marks ι) : List ι :=
  ids.filter fun a => marks.lookup a ≠ some .visiting

theorem unvisited_cons_visiting {ids : List ι} {marks : Marks ι} {id : ι} (hid : id ∈ ids)
    (hmark : marks.lookup id = none) :
    (unvisited ids ((id, .visiting) :: marks)).length < (unvisited ids marks).length := by
  have hsub : (unvisited ids ((id, .visiting) :: marks)).Sublist (unvisited ids marks) := by
    refine List.monotone_filter_right ids fun a ha => ?_
    by_cases heq : a = id
    · simp [heq] at ha
    · simpa [List.lookup_cons, beq_eq_false_iff_ne.mpr heq] using ha
  have hmem : id ∈ unvisited ids marks := List.mem_filter.mpr ⟨hid, by simp [hmark]⟩
  have hnot : id ∉ unvisited ids ((id, .visiting) :: marks) := by simp [unvisited]
  refine Nat.lt_of_le_of_ne hsub.length_le fun hlen => ?_
  rw [hsub.eq_of_length hlen] at hnot
  exact hnot hmem

theorem unvisited_congr {ids : List ι} {marks marks' : Marks ι}
    (h : ∀ a, InProgress marks' a ↔ InProgress marks a) : unvisited ids marks' = unvisited ids marks := by
  refine List.filter_congr fun a _ => ?_
  have ha := h a
  simp only [InProgress] at ha
  simp [ha]

/-- Without a cycle a visit succeeds: what is being visited is above the visited element. -/
theorem visit_acyclic (hacyclic : ∀ a, ¬ TransGen (Next next) a a) {ids : List ι}
    (hclosed : ∀ a ∈ ids, ∀ b ∈ next a, b ∈ ids) (fuel : ℕ) {id : ι} {marks : Marks ι}
    (hid : id ∈ ids) (habove : ∀ a, InProgress marks a → TransGen (Next next) a id)
    (hfuel : (unvisited ids marks).length < fuel) :
    ∃ marks', visit next fuel id marks = .ok marks' ∧
      ∀ a, InProgress marks' a ↔ InProgress marks a := by
  induction fuel generalizing id marks with
  | zero => exact absurd hfuel (Nat.not_lt_zero _)
  | succ fuel ih =>
    rw [visit]
    cases hmark : marks.lookup id with
    | some state =>
      cases state with
      | visiting => exact absurd (habove id hmark) (hacyclic id)
      | visited => exact ⟨marks, rfl, fun _ => Iff.rfl⟩
    | none =>
      have hstart (a : ι) : InProgress ((id, .visiting) :: marks) a ↔ a = id ∨ InProgress marks a := by
        rw [inProgress_cons]
        by_cases ha : a = id
        · simp [ha]
        · simp [ha]
      have hunvisited := unvisited_cons_visiting hid hmark
      have hvisits (m : Marks ι) (hm : ∀ a, InProgress m a ↔ a = id ∨ InProgress marks a) (t : ι)
          (ht : t ∈ next id) : ∃ m', visit next fuel t m = .ok m' ∧
            ∀ a, InProgress m' a ↔ a = id ∨ InProgress marks a := by
        have habove' (a : ι) (ha : InProgress m a) : TransGen (Next next) a t := by
          obtain rfl | ha := (hm a).mp ha
          · exact .single ht
          · exact (habove a ha).tail ht
        have hlt : (unvisited ids m).length < fuel := by
          rw [unvisited_congr fun a => (hm a).trans (hstart a).symm]
          omega
        obtain ⟨m', hvisit, hm'⟩ := ih (hclosed id hid t ht) habove' hlt
        exact ⟨m', hvisit, fun a => (hm' a).trans (hm a)⟩
      obtain ⟨below, hbelow, hmarks⟩ := foldlM_succeeds
        (I := fun m => ∀ a, InProgress m a ↔ a = id ∨ InProgress marks a) hvisits hstart
      refine ⟨(id, .visited) :: below, ?_, fun a => ?_⟩
      · simp only [hbelow, bind, Except.bind, pure, Except.pure]
      · rw [inProgress_cons, hmarks]
        by_cases ha : a = id
        · simp [ha, InProgress, hmark]
        · simp [ha]

/-- With enough fuel everything below the queue is reached; `weight` bounds what is still to be
queued. -/
theorem explore_complete {weight : List ι → ℕ}
    (hweight : ∀ reached id, id ∉ reached →
      weight (reached ++ [id]) + (next id).length ≤ weight reached)
    (fuel : ℕ) {queue reached : List ι} (hfuel : queue.length + weight reached < fuel)
    (hreached : ∀ a ∈ reached, ∀ b ∈ next a, b ∈ reached ∨ b ∈ queue) :
    (∀ a, a ∈ reached ∨ a ∈ queue → a ∈ explore next fuel queue reached) ∧
      ∀ a ∈ explore next fuel queue reached, ∀ b ∈ next a, b ∈ explore next fuel queue reached := by
  induction fuel generalizing queue reached with
  | zero => exact absurd hfuel (Nat.not_lt_zero _)
  | succ fuel ih =>
    cases queue with
    | nil =>
      have hclosed (a : ι) (ha : a ∈ reached) (b : ι) (hb : b ∈ next a) : b ∈ reached :=
        (hreached a ha b hb).resolve_right List.not_mem_nil
      exact ⟨fun a ha => ha.resolve_right List.not_mem_nil, hclosed⟩
    | cons id queue =>
      rw [List.length_cons] at hfuel
      rw [explore]
      split_ifs with hid
      · obtain ⟨hall, hclosed⟩ := @ih queue reached (by omega) fun a ha b hb => by
          obtain hb | hb := hreached a ha b hb
          · exact .inl hb
          · obtain rfl | hb := List.mem_cons.mp hb
            · exact .inl hid
            · exact .inr hb
        refine ⟨fun a ha => hall a ?_, hclosed⟩
        obtain ha | ha := ha
        · exact .inl ha
        · obtain rfl | ha := List.mem_cons.mp ha
          · exact .inl hid
          · exact .inr ha
      · have hnew := hweight reached id hid
        have hlt : (queue ++ next id).length + weight (reached ++ [id]) < fuel := by
          rw [List.length_append]
          omega
        obtain ⟨hall, hclosed⟩ := ih hlt fun a ha b hb => by
          obtain ha | ha := List.mem_append.mp ha
          · obtain hb | hb := hreached a ha b hb
            · exact .inl (List.mem_append_left _ hb)
            · obtain rfl | hb := List.mem_cons.mp hb
              · exact .inl (List.mem_append_right _ (List.mem_singleton_self _))
              · exact .inr (List.mem_append_left _ hb)
          · rw [List.mem_singleton.mp ha] at hb
            exact .inr (List.mem_append_right _ hb)
        refine ⟨fun a ha => hall a ?_, hclosed⟩
        obtain ha | ha := ha
        · exact .inl (List.mem_append_left _ ha)
        · obtain rfl | ha := List.mem_cons.mp ha
          · exact .inl (List.mem_append_right _ (List.mem_singleton_self _))
          · exact .inr (List.mem_append_left _ ha)

end

end VibeKanban.Lib
