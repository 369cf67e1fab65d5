import VibeKanban.Lib.Discipline
import VibeKanban.Orchestration.Effects

/-! The dispatcher lease: who is between an acquisition and its release, which sequence numbers are
taken, and the fencing tokens of successive acquisitions. -/
namespace VibeKanban.Orchestration
open Lib Relation

/-- The calls of one or several services on the run. -/
inductive LeaseCall : Program Unit → Prop where
  | appendEvent (owner : String) (payload : OrchestrationEventPayload) :
    LeaseCall (do let _ ← appendEvent owner payload)
  | consumeSourceEvent (owner : String) (inboxId : ℕ) (join source : NodeExecutionId)
    (target : Option NodeExecutionId) (command : Option AgentRunPortCommandEnvelope) :
    LeaseCall (do
      let _ ← consumeSourceEventWithEffects owner inboxId join source target command)

/-- What happens around the calls leaves the lease and the events alone; clocks do not go back. -/
structure Around (x y : Store) : Prop where
  lease : y.lease = x.lease
  state : y.state = x.state
  events : y.events = x.events
  clock : x.clock ≤ y.clock

/-- The next lease statement of the program gives back the lease of `owner`. -/
def Holds (owner : String) : Program Unit → Prop
  | .op (.release other) _ => other = owner
  | .op (.acquire ..) _ => False
  | .op _ k => ∀ a, Holds owner (k a)
  | _ => False

/-- The program appends an event before it reads a sequence number again. -/
def Knows : Program Unit → Prop
  | .op (.append _) _ | .op (.consume ..) _ => True
  | .op .now k => ∀ a, Knows (k a)
  | .op .newId k => ∀ a, Knows (k a)
  | _ => False

/-- The program has read its sequence number and has yet to acquire the lease. -/
def Prepared : Program Unit → Prop
  | .op .now k => ∀ a, Prepared (k a)
  | .op (.acquire ..) k => Knows (k true)
  | _ => False

/-- At most one caller is between a successful acquisition and its release. -/
def Exclusive (w : Calls) : Prop :=
  w.threads.Pairwise fun p q => ¬ ((∃ owner, Holds owner p) ∧ ∃ owner, Holds owner q)

/-- No lease is taken over because it expired. -/
def Unexpired (w w' : Calls) : Prop :=
  ∀ owner now a, Executes (.acquire owner now) a w w' →
    ∀ lease, w.state.lease = some lease → now < lease.expiresAt

/-- No service acquires the lease while one of its callers holds it. -/
def NoReentry (w w' : Calls) : Prop :=
  ∀ owner now, Executes (.acquire owner now) true w w' → ∀ p ∈ w.threads, ¬ Holds owner p

/-- The event was stored. -/
def Stored : Sigma Stmt.Ans → Prop
  | ⟨.append _, .ok _⟩ | ⟨.consume .., .ok true⟩ => True
  | _ => False

/-- No event is stored while another call has its sequence number and not yet the lease. -/
def NoStaleSequence (w w' : Calls) : Prop :=
  ∀ e, w'.trace = e :: w.trace → Stored e → ∀ p ∈ w.threads, ¬ Prepared p

def sequenceTaken : OrchestrationPersistenceError → Bool
  | .idempotencyConflict .eventSequence | .sequenceConflict .. => true
  | _ => false

/-- An append that was rejected because its sequence number was taken. -/
def Rejected : Sigma Stmt.Ans → Prop
  | ⟨.append _, .error error⟩ | ⟨.consume .., .error error⟩ => sequenceTaken error = true
  | _ => False

/-- The sequence numbers of the stored events are used up. -/
def Store.Sequenced (x : Store) : Prop := ∀ e ∈ x.events, e.sequence ≤ x.state.lastEventSequence

/-- Interleavings of the calls with unexpired leases, all of whose steps meet a condition. -/
def LeaseRun (C : Calls → Calls → Prop) : Calls → Calls → Prop :=
  StepsWhen Stmt.Exec Around LeaseCall fun w w' => Unexpired w w' ∧ C w w'

def token (w : Calls) : ℕ := (w.state.lease.map (·.fencingToken)).getD 0

def Acquires (w w' : Calls) : Prop :=
  Step Stmt.Exec Around LeaseCall (fun _ _ => True) w w' ∧
    ∃ owner now, Executes (.acquire owner now) true w w'

section Discipline

/-- Where a call stands: outside, ready to acquire with a sequence number, or inside with or without
one. -/
inductive LeasePosition where
  | outside
  | ready (sequence : ℕ)
  | inside (owner : String) (sequence : Option ℕ)

open LeasePosition

def leaseAllowed : Stmt → LeasePosition → Prop
  | .now, _ => True
  | .newId, inside .. => True
  | .readForConsumption .., outside => True
  | .acquire .., outside => True
  | .acquire .., ready _ => True
  | .readSequence, inside _ none => True
  | .append event, inside _ (some sequence) => event.sequence = sequence
  | .consume _ _ _ _ event _, inside _ (some sequence) => event.sequence = sequence
  | .release owner, inside other none => owner = other
  | _, _ => False

def leaseNext : (s : Stmt) → s.Ans → LeasePosition → LeasePosition
  | .readForConsumption _ join, some (sequence, plan), _ =>
    if (plan.find? (·.nodeKey = join.nodeKey)).isSome then ready sequence else outside
  | .acquire owner _, true, outside => inside owner none
  | .acquire owner _, true, ready sequence => inside owner (some sequence)
  | .acquire .., false, _ => outside
  | .readSequence, sequence, inside owner _ => inside owner (some sequence)
  | .append _, _, inside owner _ => inside owner none
  | .consume .., _, inside owner _ => inside owner none
  | .release _, _, _ => outside
  | _, _, g => g

def leaseDiscipline : Discipline Stmt Stmt.Ans LeasePosition where
  allowed := leaseAllowed
  possible _ _ _ := True
  next := leaseNext
  final g := g = outside

theorem leaseCall_follows {p : Program Unit} (h : LeaseCall p) :
    leaseDiscipline.Follows p outside := by
  cases h with
  | appendEvent owner payload =>
    refine ⟨trivial, ?_⟩
    rintro now _ ⟨_, rfl⟩
    refine ⟨trivial, ?_⟩
    rintro acquired _ ⟨_, rfl⟩
    cases acquired with
    | false => rfl
    | true =>
      refine ⟨trivial, ?_⟩
      rintro sequence _ ⟨_, rfl⟩
      refine ⟨trivial, ?_⟩
      rintro id _ ⟨_, rfl⟩
      refine ⟨rfl, ?_⟩
      rintro result _ ⟨_, rfl⟩
      refine ⟨rfl, ?_⟩
      rintro _ _ ⟨_, rfl⟩
      cases result <;> rfl
  | consumeSourceEvent owner inboxId join source target command =>
    refine ⟨trivial, ?_⟩
    rintro found _ ⟨_, rfl⟩
    match found with
    | none => rfl
    | some (sequence, plan) =>
      cases hnode : plan.find? (·.nodeKey = join.nodeKey) with
      | none =>
        simp only [leaseDiscipline, leaseNext, Prog.bind, hnode]
        rfl
      | some node =>
        simp only [leaseDiscipline, leaseNext, Prog.bind, hnode, Option.isSome_some, if_true]
        refine ⟨trivial, ?_⟩
        rintro now _ ⟨_, rfl⟩
        refine ⟨trivial, ?_⟩
        rintro acquired _ ⟨_, rfl⟩
        cases acquired with
        | false => rfl
        | true =>
          refine ⟨trivial, ?_⟩
          rintro now _ ⟨_, rfl⟩
          refine ⟨trivial, ?_⟩
          rintro id _ ⟨_, rfl⟩
          refine ⟨rfl, ?_⟩
          rintro result _ ⟨_, rfl⟩
          refine ⟨rfl, ?_⟩
          rintro _ _ ⟨_, rfl⟩
          cases result <;> rfl

/-- A program inside has its release ahead. -/
theorem holds_of_inside {p : Program Unit} {owner : String} {sequence : Option ℕ}
    (h : leaseDiscipline.Follows p (inside owner sequence)) : Holds owner p := by
  induction p generalizing sequence with
  | ret a => cases h
  | fail e => cases h
  | op s k ih =>
    cases s with
    | release other =>
      cases sequence with
      | none => exact h.1
      | some n => exact h.1.elim
    | acquire other now => exact h.1.elim
    | now => exact fun a => ih a (h.2 a _ ⟨trivial, rfl⟩)
    | newId => exact fun a => ih a (h.2 a _ ⟨trivial, rfl⟩)
    | readSequence => exact fun a => ih a (h.2 a _ ⟨trivial, rfl⟩)
    | append event => exact fun a => ih a (h.2 a _ ⟨trivial, rfl⟩)
    | consume inboxId join source target event followUp =>
      exact fun a => ih a (h.2 a _ ⟨trivial, rfl⟩)
    | _ => exact h.1.elim

theorem knows_of_inside {p : Program Unit} {owner : String} {sequence : ℕ}
    (h : leaseDiscipline.Follows p (inside owner (some sequence))) : Knows p := by
  induction p with
  | ret a => cases h
  | fail e => cases h
  | op s k ih =>
    cases s with
    | now => exact fun a => ih a (h.2 a _ ⟨trivial, rfl⟩)
    | newId => exact fun a => ih a (h.2 a _ ⟨trivial, rfl⟩)
    | append event => trivial
    | consume inboxId join source target event followUp => trivial
    | _ => exact h.1.elim

theorem prepared_of_ready {p : Program Unit} {sequence : ℕ}
    (h : leaseDiscipline.Follows p (ready sequence)) : Prepared p := by
  induction p with
  | ret a => cases h
  | fail e => cases h
  | op s k ih =>
    cases s with
    | now => exact fun a => ih a (h.2 a _ ⟨trivial, rfl⟩)
    | acquire owner now => exact knows_of_inside (h.2 true _ ⟨trivial, rfl⟩)
    | _ => exact h.1.elim

/-- A release ahead belongs to a program inside. -/
theorem inside_of_holds {p : Program Unit} {owner : String} {g : LeasePosition}
    (h : leaseDiscipline.Follows p g) (hp : Holds owner p) :
    ∃ sequence, g = inside owner sequence := by
  induction p generalizing g with
  | ret a => cases hp
  | fail e => cases hp
  | op s k ih =>
    cases s with
    | now => exact ih 0 (h.2 0 _ ⟨trivial, rfl⟩) (hp 0)
    | newId => exact ih 0 (h.2 0 _ ⟨trivial, rfl⟩) (hp 0)
    | readForConsumption inboxId join =>
      obtain ⟨sequence, hg⟩ := ih none (h.2 none _ ⟨trivial, rfl⟩) (hp none)
      exact ⟨sequence, hg⟩
    | acquire other now => exact hp.elim
    | readSequence =>
      match g, h.1 with
      | inside other none, _ =>
        obtain ⟨sequence, hg⟩ := ih 0 (h.2 0 _ ⟨trivial, rfl⟩) (hp 0)
        cases hg
        exact ⟨none, rfl⟩
    | append event =>
      match g, h.1 with
      | inside other (some n), _ =>
        obtain ⟨sequence, hg⟩ := ih (.ok .applied) (h.2 _ _ ⟨trivial, rfl⟩) (hp _)
        cases hg
        exact ⟨some n, rfl⟩
    | consume inboxId join source target event followUp =>
      match g, h.1 with
      | inside other (some n), _ =>
        obtain ⟨sequence, hg⟩ := ih (.ok true) (h.2 _ _ ⟨trivial, rfl⟩) (hp _)
        cases hg
        exact ⟨some n, rfl⟩
    | release other =>
      match g, h.1 with
      | inside _ none, hother =>
        obtain rfl : other = owner := hp
        exact ⟨none, congrArg (inside · none) hother.symm⟩
    | _ => exact h.1.elim

def LeasePosition.isInside : LeasePosition → Bool
  | inside .. => true
  | _ => false

theorem exclusive_of_positions {threads : List (Program Unit)} {gs : List LeasePosition}
    (h : Positioned leaseDiscipline threads gs) (hgs : gs.countP (·.isInside) ≤ 1) :
    threads.Pairwise fun p q => ¬ ((∃ owner, Holds owner p) ∧ ∃ owner, Holds owner q) := by
  induction h with
  | nil => exact .nil
  | @cons p g threads gs hp hthreads ih =>
    rw [List.countP_cons] at hgs
    refine .cons ?_ (ih (by omega))
    rintro q hq ⟨⟨owner, hpHolds⟩, ⟨owner', hqHolds⟩⟩
    obtain ⟨g', hg', hqFollows⟩ := forall₂_mem_left hthreads hq
    obtain ⟨sequence, rfl⟩ := inside_of_holds hp hpHolds
    obtain ⟨sequence', rfl⟩ := inside_of_holds hqFollows hqHolds
    have hone : 0 < gs.countP (·.isInside) := List.countP_pos_iff.mpr ⟨_, hg', rfl⟩
    have htwo : gs.countP (·.isInside) + 1 ≤ 1 := hgs
    omega

end Discipline

section Log

theorem recordConsumption_error {x : Store} {inboxId : ℕ} {join source : NodeExecutionId}
    {target : Option NodeExecutionId} {error : OrchestrationPersistenceError}
    (h : x.recordConsumption inboxId join source target = .error error) :
    sequenceTaken error = false := by
  unfold Store.recordConsumption at h
  split at h
  · cases h
    rfl
  · split_ifs at h with hnode
    · cases h
      rfl
    · dsimp only at h
      split at h
      · split_ifs at h with hsame
        cases h
        rfl
      · split_ifs at h with hrefs
        cases h
        rfl

theorem enqueueOutbox_error {x : Store} {id : ℕ} {command : AgentRunPortCommandEnvelope}
    {error : OrchestrationPersistenceError} (h : x.enqueueOutbox id command = .error error) :
    sequenceTaken error = false := by
  unfold Store.enqueueOutbox at h
  split_ifs at h with hvalid hnode hmatch
  · cases h
    rfl
  · cases h
    rfl
  · cases h
    rfl
  · unfold Store.insertOutbox at h
    split at h
    · split_ifs at h with hsame
      cases h
      rfl
    · split_ifs at h with hid
      cases h
      rfl

/-- The sequence number after the last one is free. -/
theorem appendAndProject_error {x : Store} {event : OrchestrationEventEnvelope}
    {error : OrchestrationPersistenceError} (hx : x.Sequenced)
    (hnext : event.sequence = x.state.lastEventSequence + 1)
    (h : x.appendAndProject event = .error error) : sequenceTaken error = false := by
  unfold Store.appendAndProject at h
  split at h
  next existing hfound =>
    split_ifs at h with hsame
    cases h
    rfl
  next =>
    split at h
    next existing hfound =>
      have hle := hx existing (List.mem_of_find?_eq_some hfound)
      have hseq : existing.sequence = event.sequence := by simpa using List.find?_some hfound
      omega
    next =>
      split at h
      next error' hreduce =>
        unfold reduceOrchestrationEvent at hreduce
        rw [if_neg (by omega), if_neg (by omega)] at hreduce
        cases hreduce
      next => cases h

theorem SameLog.sequenced {x y : Store} (h : SameLog x y) (hx : x.Sequenced) : y.Sequenced := by
  unfold Store.Sequenced
  rw [h.events, h.state]
  exact hx

theorem enqueueFollowUp_error {x : Store} {join : NodeExecutionId}
    {target : Option NodeExecutionId} {followUp : Option (ℕ × AgentRunPortCommandEnvelope)}
    {error : OrchestrationPersistenceError}
    (h : x.enqueueFollowUp join target followUp = .error error) : sequenceTaken error = false := by
  unfold Store.enqueueFollowUp at h
  split at h
  · cases h
  · split at h
    next error' henqueue =>
      cases h
      exact enqueueOutbox_error henqueue
    next => split_ifs at h

theorem consumeWithEffects_error {x : Store} {inboxId : ℕ} {join source : NodeExecutionId}
    {target : Option NodeExecutionId} {event : OrchestrationEventEnvelope}
    {followUp : Option (ℕ × AgentRunPortCommandEnvelope)} {error : OrchestrationPersistenceError}
    (hx : x.Sequenced) (hnext : event.sequence = x.state.lastEventSequence + 1)
    (h : x.consumeWithEffects inboxId join source target event followUp = .error error) :
    sequenceTaken error = false := by
  unfold Store.consumeWithEffects at h
  split_ifs at h with hrun
  · cases h
    rfl
  · split at h
    next error' hrecord =>
      cases h
      exact recordConsumption_error hrecord
    next => cases h
    next x₁ hrecord =>
      have hlog := recordConsumption_log hrecord
      split at h
      next error' happend =>
        cases h
        exact appendAndProject_error (hlog.sequenced hx) (hlog.state ▸ hnext) happend
      next =>
        split at h
        next error' hfollow =>
          cases h
          exact enqueueFollowUp_error hfollow
        next => cases h

end Log

section Exclusion
open LeasePosition

/-- A caller inside owns the lease, and there is at most one. -/
structure Guarded (x : Store) (gs : List LeasePosition) : Prop where
  owned : ∀ owner sequence, inside owner sequence ∈ gs →
    ∃ lease, x.lease = some lease ∧ lease.owner = owner
  single : gs.countP (·.isInside) ≤ 1

variable {x y : Store} {gb ga : List LeasePosition} {g g' : LeasePosition}

theorem not_inside_of_countP {gs : List LeasePosition} (h : gs.countP (·.isInside) = 0)
    (owner : String) (sequence : Option ℕ) : inside owner sequence ∉ gs := by
  intro hmem
  have hfalse := List.countP_eq_zero.mp h _ hmem
  exact hfalse rfl

theorem countP_middle (gb ga : List LeasePosition) (g : LeasePosition) :
    (gb ++ g :: ga).countP (·.isInside) =
      gb.countP (·.isInside) + ga.countP (·.isInside) + if g.isInside then 1 else 0 := by
  rw [List.countP_append, List.countP_cons]
  omega

/-- A call that stays where it was, inside or outside. -/
theorem Guarded.stay (h : Guarded x (gb ++ g :: ga)) (hlease : y.lease = x.lease)
    (hinside : ∀ owner sequence, g' = inside owner sequence → ∃ old, g = inside owner old)
    (hsame : g'.isInside = g.isInside) : Guarded y (gb ++ g' :: ga) := by
  constructor
  · intro owner sequence hmem
    rw [hlease]
    simp only [List.mem_append, List.mem_cons] at hmem
    rcases hmem with hmem | hmem | hmem
    · exact h.owned owner sequence (by simp [hmem])
    · obtain ⟨old, hold⟩ := hinside owner sequence hmem.symm
      exact h.owned owner old (by simp [hold])
    · exact h.owned owner sequence (by simp [hmem])
  · have hsingle := h.single
    rw [countP_middle] at hsingle ⊢
    rwa [hsame]

theorem Guarded.outside (h : Guarded x (gb ++ g :: ga)) (hlease : y.lease = x.lease)
    (hg : g.isInside = false) (hg' : g'.isInside = false) : Guarded y (gb ++ g' :: ga) := by
  refine h.stay hlease ?_ (hg'.trans hg.symm)
  rintro owner sequence rfl
  cases hg'

/-- When no one else is inside, the caller may be. -/
theorem Guarded.only (hothers : (gb ++ ga).countP (·.isInside) = 0)
    (hg : ∀ owner sequence, g' = inside owner sequence →
      ∃ lease, y.lease = some lease ∧ lease.owner = owner) : Guarded y (gb ++ g' :: ga) := by
  rw [List.countP_append] at hothers
  constructor
  · intro owner sequence hmem
    simp only [List.mem_append, List.mem_cons] at hmem
    rcases hmem with hmem | hmem | hmem
    · exact absurd hmem (not_inside_of_countP (by omega) owner sequence)
    · exact hg owner sequence hmem.symm
    · exact absurd hmem (not_inside_of_countP (by omega) owner sequence)
  · rw [countP_middle]
    split_ifs <;> omega

/-- A lease that is taken while no caller of the service holds it is held by no one. -/
theorem Guarded.free {owner : String} (h : Guarded x (gb ++ g :: ga))
    (hlease : ∀ lease, x.lease = some lease → lease.owner = owner)
    (hentry : ∀ sequence, inside owner sequence ∉ gb ++ ga) :
    (gb ++ ga).countP (·.isInside) = 0 := by
  apply List.countP_eq_zero.mpr
  intro other hother hin
  match other with
  | inside holder sequence =>
    have hmem : inside holder sequence ∈ gb ++ g :: ga := by
      rcases List.mem_append.mp hother with hother | hother
      · exact List.mem_append_left _ hother
      · exact List.mem_append_right _ (List.mem_cons_of_mem _ hother)
    obtain ⟨lease, hfound, rfl⟩ := h.owned holder sequence hmem
    rw [hlease lease hfound] at hother
    exact hentry sequence hother

theorem guarded_acquire {owner : String} {now : ℕ} {acquired : Bool}
    (h : Guarded x (gb ++ g :: ga)) (houtside : g.isInside = false)
    (hexec : (acquired, y) = x.acquire owner now)
    (hunexpired : ∀ lease, x.lease = some lease → now < lease.expiresAt)
    (hentry : acquired = true → ∀ sequence, inside owner sequence ∉ gb ++ ga) :
    Guarded y (gb ++ leaseNext (.acquire owner now) acquired g :: ga) := by
  rcases acquire_cases hexec with ⟨rfl, rfl⟩ | ⟨rfl, howner, rfl⟩
  · have hnext : leaseNext (.acquire owner now) false g = outside := by
      cases g <;> rfl
    rw [hnext]
    exact h.outside rfl houtside rfl
  · have hfree := h.free (fun lease hlease => howner lease hlease (hunexpired lease hlease))
      (hentry rfl)
    refine .only hfree ?_
    intro other sequence hg
    refine ⟨_, rfl, ?_⟩
    match g, hg with
    | outside, rfl => rfl
    | ready n, rfl => rfl

theorem appendAndProject_lease {event : OrchestrationEventEnvelope}
    {apply : OrchestrationReducerApply} (h : x.appendAndProject event = .ok (apply, y)) :
    y.lease = x.lease := by
  rcases appendAndProject_ok h with ⟨_, _, rfl⟩ | ⟨state, _, rfl⟩
  · rfl
  · rfl

theorem append_lease {event : OrchestrationEventEnvelope}
    {a : Except OrchestrationPersistenceError OrchestrationReducerApply}
    (h : (a, y) = committed x (x.appendAndProject event)) : y.lease = x.lease := by
  rcases committed_cases h with ⟨_, _, _, rfl⟩ | ⟨apply, hok, _⟩
  · rfl
  · exact appendAndProject_lease hok

theorem consume_lease {inboxId : ℕ} {join source : NodeExecutionId}
    {target : Option NodeExecutionId} {event : OrchestrationEventEnvelope}
    {followUp : Option (ℕ × AgentRunPortCommandEnvelope)}
    {a : Except OrchestrationPersistenceError Bool}
    (h : (a, y) = committed x (x.consumeWithEffects inboxId join source target event followUp)) :
    y.lease = x.lease := by
  rcases committed_cases h with ⟨_, _, _, rfl⟩ | ⟨inserted, hok, _⟩
  · rfl
  · rcases consumeWithEffects_log hok with ⟨_, hlog⟩ | ⟨_, x₁, x₂, apply, hfirst, happend, hlast⟩
    · exact hlog.lease
    · rw [hlast.lease, appendAndProject_lease happend, hfirst.lease]

theorem guarded_act {s : Stmt} {a : s.Ans} (h : Guarded x (gb ++ g :: ga)) (hs : leaseAllowed s g)
    (hexec : s.Exec x a y)
    (hunexpired : ∀ owner now, s = .acquire owner now →
      ∀ lease, x.lease = some lease → now < lease.expiresAt)
    (hentry : ∀ owner now, (⟨s, a⟩ : Sigma Stmt.Ans) = ⟨.acquire owner now, true⟩ →
      ∀ sequence, inside owner sequence ∉ gb ++ ga) :
    Guarded y (gb ++ leaseNext s a g :: ga) := by
  cases s with
  | now =>
    cases hexec
    exact h.stay rfl (fun owner sequence hg => ⟨sequence, hg⟩) rfl
  | newId =>
    cases hexec
    exact h.stay rfl (fun owner sequence hg => ⟨sequence, hg⟩) rfl
  | readForConsumption inboxId join =>
    match g, hs with
    | .outside, _ =>
      have hnext : (leaseNext (.readForConsumption inboxId join) a .outside).isInside = false := by
        match a with
        | none => rfl
        | some (n, plan) =>
          rw [leaseNext]
          split_ifs
          · rfl
          · rfl
      have hlease : y.lease = x.lease := congrArg Store.lease (Prod.mk.inj hexec).2
      exact h.outside hlease rfl hnext
  | acquire owner now =>
    have houtside : g.isInside = false := by
      match g, hs with
      | outside, _ => rfl
      | ready _, _ => rfl
    exact guarded_acquire h houtside hexec (hunexpired owner now rfl)
      fun hacquired => hentry owner now (by rw [hacquired])
  | readSequence =>
    match g, hs with
    | inside owner none, _ =>
      cases hexec
      refine h.stay rfl ?_ rfl
      intro other sequence hg
      cases hg
      exact ⟨none, rfl⟩
  | append event =>
    match g, hs with
    | inside owner (some n), _ =>
      refine h.stay (append_lease hexec) ?_ rfl
      intro other sequence hg
      cases hg
      exact ⟨some n, rfl⟩
  | consume inboxId join source target event followUp =>
    match g, hs with
    | inside owner (some n), _ =>
      refine h.stay (consume_lease hexec) ?_ rfl
      intro other sequence hg
      cases hg
      exact ⟨some n, rfl⟩
  | release owner =>
    match g, hs with
    | inside other none, hother =>
      have hsingle := h.single
      rw [countP_middle] at hsingle
      have hone : gb.countP (·.isInside) + ga.countP (·.isInside) + 1 ≤ 1 := hsingle
      refine .only ?_ nofun
      rw [List.countP_append]
      omega
  | _ => exact hs.elim

/-- The callers inside that belong to the positions of other programs. -/
theorem not_inside_of_threads {owner : String} {before after : List (Program Unit)}
    {p : Program Unit} (hb : Positioned leaseDiscipline before gb)
    (ha : Positioned leaseDiscipline after ga)
    (h : ∀ q ∈ before ++ p :: after, ¬ Holds owner q) (sequence : Option ℕ) :
    inside owner sequence ∉ gb ++ ga := by
  intro hmem
  rcases List.mem_append.mp hmem with hmem | hmem
  · obtain ⟨q, hq, hfollows⟩ := forall₂_mem_right hb hmem
    exact h q (List.mem_append_left _ hq) (holds_of_inside hfollows)
  · obtain ⟨q, hq, hfollows⟩ := forall₂_mem_right ha hmem
    exact h q (List.mem_append_right _ (List.mem_cons_of_mem _ hq)) (holds_of_inside hfollows)

theorem Guarded.drop (h : Guarded x (gb ++ g :: ga)) : Guarded x (gb ++ ga) := by
  constructor
  · intro owner sequence hmem
    apply h.owned owner sequence
    rcases List.mem_append.mp hmem with hmem | hmem
    · exact List.mem_append_left _ hmem
    · exact List.mem_append_right _ (List.mem_cons_of_mem _ hmem)
  · have hsingle := h.single
    rw [countP_middle] at hsingle
    rw [List.countP_append]
    omega

theorem Guarded.spawn {gs : List LeasePosition} (h : Guarded x gs) : Guarded x (.outside :: gs) := by
  constructor
  · intro owner sequence hmem
    rcases List.mem_cons.mp hmem with hmem | hmem
    · cases hmem
    · exact h.owned owner sequence hmem
  · exact h.single

theorem Guarded.around {gs : List LeasePosition} (h : Guarded x gs) (hxy : Around x y) :
    Guarded y gs :=
  ⟨fun owner sequence hmem => hxy.lease ▸ h.owned owner sequence hmem, h.single⟩

theorem guarded_step {tr : List (Sigma Stmt.Ans)} {before after : List (Program Unit)} {s : Stmt}
    {k : s.Ans → Program Unit} {a : s.Ans} (hb : Positioned leaseDiscipline before gb)
    (ha : Positioned leaseDiscipline after ga) (hg : leaseDiscipline.Follows (.op s k) g)
    (h : Guarded x (gb ++ g :: ga)) (hexec : s.Exec x a y)
    (hunexpired : Unexpired ⟨tr, x, before ++ .op s k :: after⟩
      ⟨⟨s, a⟩ :: tr, y, before ++ k a :: after⟩)
    (hentry : NoReentry ⟨tr, x, before ++ .op s k :: after⟩
      ⟨⟨s, a⟩ :: tr, y, before ++ k a :: after⟩) :
    Guarded y (gb ++ leaseNext s a g :: ga) := by
  refine guarded_act h hg.1 hexec ?_ ?_
  · rintro owner now rfl
    exact hunexpired owner now a rfl
  · intro owner now hstep
    exact not_inside_of_threads hb ha (hentry owner now (congrArg (· :: tr) hstep))

theorem LeaseRun.guarded {w : Calls} (h : LeaseRun NoReentry (.start x) w) :
    ∃ gs, Positioned leaseDiscipline w.threads gs ∧ Guarded w.state gs := by
  have hstart : Guarded (World.start x : Calls).state [] := ⟨nofun, Nat.zero_le _⟩
  refine @StepsWhen.positions _ _ _ _ _ _ _ _ _ leaseDiscipline (fun _ x gs => Guarded x gs) .outside
    (fun _ => leaseCall_follows) ?_ ?_ ?_ ?_ _ _ h [] .nil hstart
  · exact fun _ _ _ h => h.spawn
  · intro tr x y before after s k a gb g ga hb ha hg h hexec hC
    exact ⟨trivial, guarded_step hb ha hg h hexec hC.1 hC.2⟩
  · exact fun _ _ _ _ _ _ _ _ _ _ _ h _ => h.drop
  · exact fun _ _ _ _ h hxy => h.around hxy

theorem LeaseRun.exclusive {w : Calls} (h : LeaseRun NoReentry (.start x) w) : Exclusive w := by
  obtain ⟨gs, hgs, hguarded⟩ := h.guarded
  exact exclusive_of_positions hgs hguarded.single

/-- In any run the calls follow the discipline. -/
theorem LeaseRun.positioned {C : Calls → Calls → Prop} {w : Calls} (h : LeaseRun C (.start x) w) :
    ∃ gs, Positioned leaseDiscipline w.threads gs := by
  obtain ⟨gs, hgs, _⟩ := @StepsWhen.positions _ _ _ _ _ _ _ _ _ leaseDiscipline
    (fun _ _ _ => True) .outside (fun _ => leaseCall_follows) (fun _ _ _ _ => trivial)
    (fun _ _ _ _ _ _ _ _ _ _ _ _ _ _ _ _ _ => ⟨trivial, trivial⟩)
    (fun _ _ _ _ _ _ _ _ _ _ _ _ _ => trivial) (fun _ _ _ _ _ _ => trivial) _ _ h [] .nil trivial
  exact ⟨gs, hgs⟩

/-- Two callers of one list that both hold. -/
theorem not_exclusive_of_mem {before after : List (Program Unit)} {p q : Program Unit}
    {owner : String} (hp : Holds owner p) (hq : Holds owner q) (hmem : q ∈ before ++ after) :
    ¬ (before ++ p :: after).Pairwise
      fun p q => ¬ ((∃ owner, Holds owner p) ∧ ∃ owner, Holds owner q) := by
  intro hpairs
  obtain ⟨_, hrest, hcross⟩ := List.pairwise_append.mp hpairs
  rcases List.mem_append.mp hmem with hbefore | hafter
  · exact hcross q hbefore p List.mem_cons_self ⟨⟨owner, hq⟩, ⟨owner, hp⟩⟩
  · exact List.rel_of_pairwise_cons hrest hafter ⟨⟨owner, hp⟩, ⟨owner, hq⟩⟩

/-- An acquisition by a service one of whose callers holds the lease ends the exclusion. -/
theorem LeaseRun.reentry {C : Calls → Calls → Prop} {w w' : Calls} (h : LeaseRun C (.start x) w)
    (hstep : Step Stmt.Exec Around LeaseCall (fun _ _ => True) w w') (hentry : ¬ NoReentry w w') :
    ¬ Exclusive w' := by
  obtain ⟨gs, hgs⟩ := h.positioned
  unfold NoReentry at hentry
  push Not at hentry
  obtain ⟨owner, now, hexecutes, q, hq, hholds⟩ := hentry
  cases hstep with
  | spawn _ => exact absurd hexecutes (List.ne_cons_self)
  | drop => exact absurd hexecutes (List.ne_cons_self)
  | env _ => exact absurd hexecutes (List.ne_cons_self)
  | @act tr x y before after s k a _ hs =>
    obtain ⟨gb, g, ga, rfl, _, hg, _⟩ := hgs.split
    obtain rfl : s = .acquire owner now := congrArg Sigma.fst (List.cons.inj hexecutes).1
    obtain rfl : a = true := eq_of_heq (Sigma.mk.inj (List.cons.inj hexecutes).1).2
    have hnext := hg.2 true _ ⟨trivial, rfl⟩
    have hp : Holds owner (k true) := by
      match g, hg.1 with
      | .outside, _ => exact holds_of_inside hnext
      | ready n, _ => exact holds_of_inside hnext
    apply not_exclusive_of_mem hp hholds
    simp only [List.mem_append, List.mem_cons] at hq ⊢
    rcases hq with hq | rfl | hq
    · exact Or.inl hq
    · exact hholds.elim
    · exact Or.inr hq

end Exclusion

section Sequence
open LeasePosition

/-- A call that knows its sequence number knows the next one. -/
def Known (x : Store) : LeasePosition → Prop
  | ready sequence | inside _ (some sequence) => sequence = x.state.lastEventSequence + 1
  | _ => True

/-- The calls exclude each other, know the next sequence number, and none was rejected. -/
structure Serialised (tr : List (Sigma Stmt.Ans)) (x : Store) (gs : List LeasePosition) : Prop where
  guarded : Guarded x gs
  sequenced : x.Sequenced
  known : ∀ g ∈ gs, Known x g
  accepted : ∀ e ∈ tr, ¬ Rejected e

variable {x y : Store} {gb ga : List LeasePosition} {g : LeasePosition}
  {tr : List (Sigma Stmt.Ans)}

theorem Known.of_log {g : LeasePosition} (h : Known x g) (hlog : y.state = x.state) : Known y g := by
  unfold Known at h ⊢
  rwa [hlog]

/-- The others know the next number when the log is the same. -/
theorem known_same {g' : LeasePosition} (h : ∀ other ∈ gb ++ g :: ga, Known x other)
    (hlog : y.state = x.state) (hg' : Known y g') :
    ∀ other ∈ gb ++ g' :: ga, Known y other := by
  intro other hother
  simp only [List.mem_append, List.mem_cons] at hother
  rcases hother with hother | rfl | hother
  · exact (h other (by simp [hother])).of_log hlog
  · exact hg'
  · exact (h other (by simp [hother])).of_log hlog

/-- When an event is stored, the caller inside is alone and no other call has a number. -/
theorem known_stored {owner : String} {sequence : Option ℕ} {g' : LeasePosition}
    (h : Guarded x (gb ++ inside owner sequence :: ga)) (hready : ∀ n, ready n ∉ gb ++ ga)
    (hg' : Known y g') : ∀ other ∈ gb ++ g' :: ga, Known y other := by
  have hsingle := h.single
  rw [countP_middle] at hsingle
  have hone : gb.countP (·.isInside) + ga.countP (·.isInside) + 1 ≤ 1 := hsingle
  have hothers : (gb ++ ga).countP (·.isInside) = 0 := by
    rw [List.countP_append]
    omega
  have hother : ∀ other ∈ gb ++ ga, Known y other := by
    intro other hmem
    match other with
    | .outside => exact trivial
    | ready n => exact absurd hmem (hready n)
    | inside holder n => exact absurd hmem (not_inside_of_countP hothers holder n)
  intro other hmem
  simp only [List.mem_append, List.mem_cons] at hmem hother
  rcases hmem with hmem | rfl | hmem
  · exact hother other (Or.inl hmem)
  · exact hg'
  · exact hother other (Or.inr hmem)

theorem not_ready_of_threads {before after : List (Program Unit)} {p : Program Unit}
    (hb : Positioned leaseDiscipline before gb) (ha : Positioned leaseDiscipline after ga)
    (h : ∀ q ∈ before ++ p :: after, ¬ Prepared q) (n : ℕ) : ready n ∉ gb ++ ga := by
  intro hmem
  rcases List.mem_append.mp hmem with hmem | hmem
  · obtain ⟨q, hq, hfollows⟩ := forall₂_mem_right hb hmem
    exact h q (List.mem_append_left _ hq) (prepared_of_ready hfollows)
  · obtain ⟨q, hq, hfollows⟩ := forall₂_mem_right ha hmem
    exact h q (List.mem_append_right _ (List.mem_cons_of_mem _ hq)) (prepared_of_ready hfollows)

/-- The log after an event with the next number. -/
theorem appendAndProject_sequenced {event : OrchestrationEventEnvelope}
    {apply : OrchestrationReducerApply} (hx : x.Sequenced)
    (hnext : event.sequence = x.state.lastEventSequence + 1)
    (h : x.appendAndProject event = .ok (apply, y)) : y.Sequenced := by
  rcases appendAndProject_ok h with ⟨_, _, rfl⟩ | ⟨state, _, rfl⟩
  · exact hx
  · intro e he
    rcases List.mem_cons.mp he with rfl | he
    · exact le_refl _
    · have hle := hx e he
      show e.sequence ≤ event.sequence
      omega

/-- The log part of a statement: what is known, stored and answered. -/
theorem serialised_act {s : Stmt} {a : s.Ans} (h : Serialised tr x (gb ++ g :: ga))
    (hs : leaseAllowed s g) (hexec : s.Exec x a y)
    (hready : Stored ⟨s, a⟩ → ∀ n, ready n ∉ gb ++ ga) :
    y.Sequenced ∧ (∀ g' ∈ gb ++ leaseNext s a g :: ga, Known y g') ∧ ¬ Rejected ⟨s, a⟩ := by
  have hown : Known x g := h.known g (by simp)
  cases s with
  | now =>
    cases hexec
    exact ⟨h.sequenced, h.known, id⟩
  | newId =>
    cases hexec
    exact ⟨h.sequenced, known_same h.known rfl hown, id⟩
  | readForConsumption inboxId join =>
    match g, hs with
    | .outside, _ =>
      obtain ⟨rfl, rfl⟩ := Prod.mk.inj hexec
      refine ⟨h.sequenced, known_same h.known rfl ?_, id⟩
      split_ifs with hfound
      · rw [leaseNext]
        split_ifs
        · exact rfl
        · trivial
      · trivial
  | acquire owner now =>
    obtain ⟨hlog, hevents⟩ : y.state = x.state ∧ y.events = x.events := by
      rcases acquire_cases hexec with ⟨_, rfl⟩ | ⟨_, _, rfl⟩
      · exact ⟨rfl, rfl⟩
      · exact ⟨rfl, rfl⟩
    have hsequenced : y.Sequenced := by
      unfold Store.Sequenced
      rw [hlog, hevents]
      exact h.sequenced
    have hnext : Known y (leaseNext (.acquire owner now) a g) := by
      match g, hs, a with
      | .outside, _, true => trivial
      | .outside, _, false => trivial
      | ready n, _, true => exact hown.of_log hlog
      | ready n, _, false => trivial
    exact ⟨hsequenced, known_same h.known hlog hnext, id⟩
  | readSequence =>
    match g, hs with
    | inside owner none, _ =>
      cases hexec
      exact ⟨h.sequenced, known_same h.known rfl rfl, id⟩
  | append event =>
    match g, hs with
    | inside owner (some n), hsequence =>
      have hevent : event.sequence = x.state.lastEventSequence + 1 := hsequence.trans hown
      rcases committed_cases hexec with ⟨error, herror, rfl, rfl⟩ | ⟨apply, hok, rfl⟩
      · have hfree := appendAndProject_error h.sequenced hevent herror
        exact ⟨h.sequenced, known_same h.known rfl trivial, by simp [Rejected, hfree]⟩
      · exact ⟨appendAndProject_sequenced h.sequenced hevent hok,
          known_stored h.guarded (hready trivial) trivial, id⟩
  | consume inboxId join source target event followUp =>
    match g, hs with
    | inside owner (some n), hsequence =>
      have hevent : event.sequence = x.state.lastEventSequence + 1 := hsequence.trans hown
      rcases committed_cases hexec with ⟨error, herror, rfl, rfl⟩ | ⟨inserted, hok, rfl⟩
      · have hfree := consumeWithEffects_error h.sequenced hevent herror
        exact ⟨h.sequenced, known_same h.known rfl trivial, by simp [Rejected, hfree]⟩
      · rcases consumeWithEffects_log hok with ⟨rfl, hlog⟩ | ⟨rfl, x₁, x₂, apply, hfirst, happend, hlast⟩
        · exact ⟨hlog.sequenced h.sequenced, known_same h.known hlog.state trivial, id⟩
        · have hx₂ := appendAndProject_sequenced (hfirst.sequenced h.sequenced)
            (hfirst.state ▸ hevent) happend
          exact ⟨hlast.sequenced hx₂, known_stored h.guarded (hready trivial) trivial, id⟩
  | release owner =>
    match g, hs with
    | inside other none, _ =>
      obtain ⟨_, rfl⟩ := Prod.mk.inj hexec
      have hlog : SameLog { x with lease := none } { (x.release owner).2 with lease := none } := by
        unfold Store.release
        split_ifs
        · exact ⟨rfl, rfl, rfl⟩
        · exact ⟨rfl, rfl, rfl⟩
      exact ⟨hlog.sequenced h.sequenced, known_same h.known hlog.state trivial, id⟩
  | _ => exact hs.elim

theorem Serialised.drop (h : Serialised tr x (gb ++ g :: ga)) : Serialised tr x (gb ++ ga) := by
  refine ⟨h.guarded.drop, h.sequenced, ?_, h.accepted⟩
  intro other hother
  apply h.known
  rcases List.mem_append.mp hother with hother | hother
  · exact List.mem_append_left _ hother
  · exact List.mem_append_right _ (List.mem_cons_of_mem _ hother)

theorem Serialised.spawn {gs : List LeasePosition} (h : Serialised tr x gs) :
    Serialised tr x (.outside :: gs) := by
  refine ⟨h.guarded.spawn, h.sequenced, ?_, h.accepted⟩
  intro other hother
  rcases List.mem_cons.mp hother with rfl | hother
  · trivial
  · exact h.known other hother

theorem Serialised.around {gs : List LeasePosition} (h : Serialised tr x gs) (hxy : Around x y) :
    Serialised tr y gs := by
  have hlog : SameLog x y := ⟨hxy.lease, hxy.state, hxy.events⟩
  exact ⟨h.guarded.around hxy, hlog.sequenced h.sequenced,
    fun other hother => (h.known other hother).of_log hxy.state, h.accepted⟩

theorem LeaseRun.serialised {w : Calls} (hx : x.Sequenced)
    (h : LeaseRun (fun w w' => NoReentry w w' ∧ NoStaleSequence w w') (.start x) w) :
    ∃ gs, Positioned leaseDiscipline w.threads gs ∧ Serialised w.trace w.state gs := by
  have hstart : Serialised [] x [] :=
    ⟨⟨nofun, Nat.zero_le _⟩, hx, fun _ hmem => (List.not_mem_nil hmem).elim,
      fun _ hmem => (List.not_mem_nil hmem).elim⟩
  refine @StepsWhen.positions _ _ _ _ _ _ _ _ _ leaseDiscipline Serialised .outside
    (fun _ => leaseCall_follows) ?_ ?_ ?_ ?_ _ _ h [] .nil hstart
  · exact fun _ _ _ h => h.spawn
  · rintro tr x y before after s k a gb g ga hb ha hg h hexec ⟨hunexpired, hentry, hstale⟩
    have hready : Stored ⟨s, a⟩ → ∀ n, ready n ∉ gb ++ ga :=
      fun hstored => not_ready_of_threads hb ha (hstale _ rfl hstored)
    obtain ⟨hsequenced, hknown, haccepted⟩ := serialised_act h hg.1 hexec hready
    refine ⟨trivial, guarded_step hb ha hg h.guarded hexec hunexpired hentry, hsequenced, hknown, ?_⟩
    intro e he
    rcases List.mem_cons.mp he with rfl | he
    · exact haccepted
    · exact h.accepted e he
  · exact fun _ _ _ _ _ _ _ _ _ _ _ h _ => h.drop
  · exact fun _ _ _ _ h hxy => h.around hxy

end Sequence

section Tokens

variable {x y : Store}

/-- A statement that acquires nothing keeps the lease or gives it back. -/
theorem exec_lease {s : Stmt} {a : s.Ans} (h : s.Exec x a y)
    (hs : ∀ owner now, (⟨s, a⟩ : Sigma Stmt.Ans) ≠ ⟨.acquire owner now, true⟩) :
    y.lease = x.lease ∨ y.lease = none := by
  cases s with
  | append event => exact Or.inl (append_lease h)
  | consume inboxId join source target event followUp => exact Or.inl (consume_lease h)
  | insertLink link =>
    rcases committed_cases h with ⟨_, _, _, rfl⟩ | ⟨_, hok, _⟩
    · exact Or.inl rfl
    · unfold Store.insertLink at hok
      split_ifs at hok
      · cases hok
        exact Or.inl rfl
      · cases hok
        exact Or.inl rfl
  | enqueue id command =>
    rcases committed_cases h with ⟨_, _, _, rfl⟩ | ⟨_, hok, _⟩
    · exact Or.inl rfl
    · exact Or.inl (enqueueOutbox_log hok).lease
  | persistNode id stableOrder =>
    obtain ⟨_, rfl⟩ := Prod.mk.inj h
    unfold Store.persistNode
    split_ifs
    · exact Or.inl rfl
    · exact Or.inl rfl
  | claimOutbox time after =>
    cases a with
    | none =>
      obtain ⟨_, rfl⟩ := h
      exact Or.inl rfl
    | some claimed =>
      obtain ⟨row, _, _, _, _, rfl⟩ := h
      exact Or.inl rfl
  | promote join time =>
    rcases committed_cases h with ⟨_, _, _, rfl⟩ | ⟨_, hok, _⟩
    · exact Or.inl rfl
    · rcases promoteNextSerial_ok hok with ⟨_, rfl⟩ | ⟨next, _, _, _, rfl⟩
      · exact Or.inl rfl
      · exact Or.inl rfl
  | claimInbox =>
    have hclaim : (a, y) = x.claimInbox := h
    unfold Store.claimInbox at hclaim
    split at hclaim
    · cases hclaim
      exact Or.inl rfl
    · cases hclaim
      exact Or.inl rfl
  | acquire owner now =>
    rcases acquire_cases h with ⟨_, rfl⟩ | ⟨rfl, _⟩
    · exact Or.inl rfl
    · exact absurd rfl (hs owner now)
  | release owner =>
    obtain ⟨_, rfl⟩ := Prod.mk.inj h
    unfold Store.release
    split_ifs
    · exact Or.inr rfl
    · exact Or.inl rfl
  | reconcileLeases =>
    obtain ⟨_, rfl⟩ := Prod.mk.inj h
    exact Or.inr rfl
  | create command =>
    cases a with
    | ok created =>
      cases h
      split_ifs
      · exact Or.inl rfl
      · exact Or.inl rfl
    | error error =>
      cases h
      exact Or.inl rfl
  | control command =>
    simp only [Stmt.Exec] at h
    split at h
    · obtain ⟨status, rfl⟩ := h
      exact Or.inl rfl
    · cases h
      exact Or.inl rfl
  | query run =>
    obtain ⟨_, rfl⟩ := h
    exact Or.inl rfl
  | _ =>
    obtain ⟨_, rfl⟩ := Prod.mk.inj h
    exact Or.inl rfl

/-- The calls between two successive acquisitions. -/
def Between : Calls → Calls → Prop :=
  StepsWhen Stmt.Exec Around LeaseCall fun w w' =>
    ∀ owner now, ¬ Executes (.acquire owner now) true w w'

theorem Between.lease {w w' : Calls} (h : Between w w') :
    w'.state.lease = w.state.lease ∨ w'.state.lease = none := by
  induction h with
  | refl => exact Or.inl rfl
  | @tail b c _ hstep ih =>
    have hlast : c.state.lease = b.state.lease ∨ c.state.lease = none := by
      obtain ⟨hstep, hnone⟩ := hstep
      cases hstep with
      | spawn _ => exact Or.inl rfl
      | drop => exact Or.inl rfl
      | env hxy => exact Or.inl hxy.lease
      | @act tr x y before after s k a _ hs =>
        refine exec_lease hs ?_
        intro owner now heq
        exact hnone owner now (congrArg (· :: tr) heq)
    rcases hlast with hlast | hlast
    · rwa [hlast]
    · exact Or.inr hlast

/-- The token of an acquisition. -/
theorem Acquires.token {w w' : Calls} (h : Acquires w w') :
    token w' = token w + 1 ∧ w'.state.lease ≠ none := by
  obtain ⟨hstep, owner, now, hexecutes⟩ := h
  cases hstep with
  | spawn _ => exact absurd hexecutes List.ne_cons_self
  | drop => exact absurd hexecutes List.ne_cons_self
  | env _ => exact absurd hexecutes List.ne_cons_self
  | @act tr x y before after s k a _ hs =>
    obtain rfl : s = .acquire owner now := congrArg Sigma.fst (List.cons.inj hexecutes).1
    obtain rfl : a = true := eq_of_heq (Sigma.mk.inj (List.cons.inj hexecutes).1).2
    rcases acquire_cases hs with ⟨hfalse, _⟩ | ⟨_, _, rfl⟩
    · cases hfalse
    · exact ⟨rfl, Option.some_ne_none _⟩

/-- The token of the next acquisition is larger exactly when the lease was not given back. -/
theorem token_lt_iff {w₁ w₁' w₂ w₂' : Calls} (h₁ : Acquires w₁ w₁') (hbetween : Between w₁' w₂)
    (h₂ : Acquires w₂ w₂') : token w₁' < token w₂' ↔ w₂.state.lease ≠ none := by
  obtain ⟨htoken₁, _⟩ := h₁.token
  obtain ⟨htoken₂, _⟩ := h₂.token
  constructor
  · intro hlt hnone
    have hzero : token w₂ = 0 := by simp [token, hnone]
    omega
  · intro hlease
    have hsame : token w₂ = token w₁' := by
      unfold token
      rw [hbetween.lease.resolve_right hlease]
    omega

end Tokens

/-- While no service acquires the lease that one of its callers holds, the callers exclude each
other, and such an acquisition ends that. While moreover no event is stored between the read of a
sequence number and the acquisition of the lease, no append finds its number taken. A token is
larger than the one before exactly when the lease was not given back in between. -/
theorem lease_serialises {x : Store} (hx : x.Sequenced) :
    (∀ w, LeaseRun NoReentry (.start x) w → Exclusive w) ∧
    (∀ w w', LeaseRun (fun _ _ => True) (.start x) w →
      Step Stmt.Exec Around LeaseCall (fun _ _ => True) w w' → ¬ NoReentry w w' → ¬ Exclusive w') ∧
    (∀ w, LeaseRun (fun w w' => NoReentry w w' ∧ NoStaleSequence w w') (.start x) w →
      ∀ e ∈ w.trace, ¬ Rejected e) ∧
    ∀ w₁ w₁' w₂ w₂', Acquires w₁ w₁' → Between w₁' w₂ → Acquires w₂ w₂' →
      (token w₁' < token w₂' ↔ w₂.state.lease ≠ none) := by
  refine ⟨fun w h => h.exclusive, fun w w' h => h.reentry, ?_, ?_⟩
  · intro w h
    obtain ⟨gs, _, hserialised⟩ := h.serialised hx
    exact hserialised.accepted
  · exact fun w₁ w₁' w₂ w₂' => token_lt_iff

section Fixture

/-- A run without events whose lease is free. -/
@[reducible] def idleStore : Store where
  plan := []
  state := ⟨.running, false, 0, none, 0⟩
  events := []
  nodes := []
  links := []
  outbox := []
  inbox := []
  consumptions := []
  lease := none
  agents := fun _ => none
  clock := 1
  nextId := 1

/-- The statement would acquire a lease that expired. -/
def Stmt.takesOver : Stmt → Store → Bool
  | .acquire _ time, x => x.lease.any (·.expiresAt ≤ time)
  | _, _ => false

theorem unexpired_of_accepted {s : Stmt} {tr : List (Sigma Stmt.Ans)} {x y : Store}
    {threads threads' : List (Program Unit)} {a : s.Ans}
    (h : Stmt.unless Stmt.takesOver s x = some (a, y)) :
    Unexpired ⟨tr, x, threads⟩ ⟨⟨s, a⟩ :: tr, y, threads'⟩ := by
  intro owner now b hexecutes lease hlease
  obtain rfl : s = .acquire owner now := congrArg Sigma.fst (List.cons.inj hexecutes).1
  have hover := Stmt.not_refused h
  rw [Stmt.takesOver, show x.lease = some lease from hlease] at hover
  simpa using hover

theorem follow_leaseRun {schedule : List ℕ} {w w' : Calls}
    (h : follow (Stmt.unless Stmt.takesOver) schedule w = some w') :
    LeaseRun (fun _ _ => True) w w' :=
  follow_stepsWhen Stmt.unless_exec
    (fun _ _ _ _ _ _ _ _ hstep => ⟨unexpired_of_accepted hstep, trivial⟩) h

def Stmt.acquires : Stmt → Store → Bool
  | .acquire .., _ => true
  | _, _ => false

theorem follow_between {schedule : List ℕ} {w w' : Calls}
    (h : follow (Stmt.unless Stmt.acquires) schedule w = some w') : Between w w' := by
  refine follow_stepsWhen Stmt.unless_exec ?_ h
  intro tr x s k a y before after hstep owner now hexecutes
  obtain rfl : s = .acquire owner now := congrArg Sigma.fst (List.cons.inj hexecutes).1
  cases Stmt.not_refused hstep

theorem follow_step {refused : Stmt → Store → Bool} {i : ℕ} {w w' : Calls}
    (h : follow (Stmt.unless refused) [i] w = some w') :
    ∃ s a, (∃ y, Stmt.unless refused s w.state = some (a, y)) ∧ Executes s a w w' ∧
      Step Stmt.Exec Around LeaseCall (fun _ _ => True) w w' := by
  obtain ⟨w₁, hstep, hrest⟩ := follow_cons
    (T := fun w w' => ∃ s a, (∃ y, Stmt.unless refused s w.state = some (a, y)) ∧
      Executes s a w w' ∧ Step Stmt.Exec Around LeaseCall (fun _ _ => True) w w')
    (fun tr x s k a y before after hstep =>
      ⟨s, a, ⟨y, hstep⟩, rfl, Step.act trivial (Stmt.unless_exec s x a y hstep)⟩) h
  obtain rfl := Option.some.inj hrest
  exact hstep

theorem follow_acquires {refused : Stmt → Store → Bool} {i : ℕ} {owner : String} {now : ℕ}
    {w w' : Calls} (h : follow (Stmt.unless refused) [i] w = some w')
    (hexecutes : Executes (.acquire owner now) true w w') : Acquires w w' := by
  obtain ⟨_, _, _, _, hstep⟩ := follow_step h
  exact ⟨hstep, owner, now, hexecutes⟩

theorem start_leaseRun {threads : List (Program Unit)} {x : Store}
    (h : ∀ p ∈ threads, LeaseCall p) :
    LeaseRun (fun _ _ => True) (.start x) ⟨[], x, threads⟩ := by
  refine stepsWhen_spawn (fun tr x ts p => ⟨?_, trivial⟩) h
  intro owner now a hexecutes
  exact absurd hexecutes List.ne_cons_self

/-- Two tasks of one service that append an event. -/
def twoAppends : List (Program Unit) :=
  [do let _ ← appendEvent "service" (.lifecycleChanged .running),
   do let _ ← appendEvent "service" (.lifecycleChanged .cancelling)]

theorem twoAppends_leaseCall : ∀ p ∈ twoAppends, LeaseCall p := by
  intro p hp
  rcases List.mem_pair.mp hp with rfl | rfl
  · exact .appendEvent "service" (.lifecycleChanged .running)
  · exact .appendEvent "service" (.lifecycleChanged .cancelling)

/-- Both tasks acquire the lease and read one sequence number; the second append is rejected. When
they run one after the other, both acquisitions store token one. -/
theorem lease_reentered : idleStore.Sequenced ∧
    (∃ w w' : Calls, LeaseRun (fun _ _ => True) (.start idleStore) w ∧ ¬ Exclusive w ∧
      LeaseRun (fun _ _ => True) w w' ∧ ∃ e ∈ w'.trace, Rejected e) ∧
    ∃ w₁ w₁' w₂ w₂' : Calls, LeaseRun (fun _ _ => True) (.start idleStore) w₁ ∧ Acquires w₁ w₁' ∧
      Between w₁' w₂ ∧ Acquires w₂ w₂' ∧ token w₁' = 1 ∧ token w₂' = 1 := by
  have hstart := start_leaseRun (x := idleStore) twoAppends_leaseCall
  refine ⟨fun e he => (List.not_mem_nil he).elim, ?_, ?_⟩
  · obtain ⟨w, hw, ⟨p, q, hthreads, hp, hq⟩, w', hw', e, he, hrejected⟩ : ∃ w : Calls,
        follow (Stmt.unless Stmt.takesOver) [0, 0, 1, 1] ⟨[], idleStore, twoAppends⟩ = some w ∧
        (∃ p q, w.threads = [p, q] ∧ Holds "service" p ∧ Holds "service" q) ∧
        ∃ w' : Calls, follow (Stmt.unless Stmt.takesOver) [0, 1, 0, 1, 0, 1] w = some w' ∧
          ∃ e, e ∈ w'.trace ∧ Rejected e :=
      ⟨_, rfl, ⟨_, _, rfl, fun _ _ _ => rfl, fun _ _ _ => rfl⟩, _, rfl, _, List.mem_cons_self, rfl⟩
    refine ⟨w, w', hstart.trans (follow_leaseRun hw), ?_, follow_leaseRun hw', e, he, hrejected⟩
    unfold Exclusive
    rw [hthreads]
    exact @not_exclusive_of_mem [] [q] p q "service" hp hq List.mem_cons_self
  · obtain ⟨w₁, h₁, w₁', h₁', hacquires₁, w₂, h₂, w₂', h₂', hacquires₂, htoken₁, htoken₂⟩ :
        ∃ w₁ : Calls,
        follow (Stmt.unless Stmt.takesOver) [0] ⟨[], idleStore, twoAppends⟩ = some w₁ ∧
        ∃ w₁' : Calls, follow (Stmt.unless Stmt.takesOver) [0] w₁ = some w₁' ∧
        Executes (.acquire "service" 1) true w₁ w₁' ∧
        ∃ w₂ : Calls, follow (Stmt.unless Stmt.acquires) [0, 0, 0, 0, 1] w₁' = some w₂ ∧
        ∃ w₂' : Calls, follow (Stmt.unless Stmt.takesOver) [1] w₂ = some w₂' ∧
        Executes (.acquire "service" 1) true w₂ w₂' ∧ token w₁' = 1 ∧ token w₂' = 1 :=
      ⟨_, rfl, _, rfl, rfl, _, rfl, _, rfl, rfl, rfl, rfl⟩
    exact ⟨w₁, w₁', w₂, w₂', hstart.trans (follow_leaseRun h₁), follow_acquires h₁' hacquires₁,
      follow_between h₂, follow_acquires h₂' hacquires₂, htoken₁, htoken₂⟩

/-- The statement would acquire a lease that expired or that its service holds. -/
def Stmt.contends : Stmt → Store → Bool
  | .acquire owner time, x => x.lease.any fun lease => lease.expiresAt ≤ time || lease.owner = owner
  | _, _ => false

def Stmt.stores : Stmt → Bool
  | .append _ | .consume .. => true
  | _ => false

def knows : Program Unit → Bool
  | .op (.append _) _ | .op (.consume ..) _ => true
  | .op .now k => knows (k 0)
  | .op .newId k => knows (k 0)
  | _ => false

def prepared : Program Unit → Bool
  | .op .now k => prepared (k 0)
  | .op (.acquire ..) k => knows (k true)
  | _ => false

theorem knows_of_Knows {p : Program Unit} (h : Knows p) : knows p = true := by
  induction p with
  | ret a => cases h
  | fail e => cases h
  | op s k ih =>
    cases s with
    | now => exact ih 0 (h 0)
    | newId => exact ih 0 (h 0)
    | append event => rfl
    | consume inboxId join source target event followUp => rfl
    | _ => exact h.elim

theorem prepared_of_Prepared {p : Program Unit} (h : Prepared p) : prepared p = true := by
  induction p with
  | ret a => cases h
  | fail e => cases h
  | op s k ih =>
    cases s with
    | now => exact ih 0 (h 0)
    | acquire owner now => exact knows_of_Knows h
    | _ => exact h.elim

/-- Interleavings in which the callers exclude each other and no append is rejected. -/
abbrev OrderlyRun : Calls → Calls → Prop :=
  LeaseRun fun w w' => NoReentry w w' ∧ NoStaleSequence w w'

/-- A caller takes its next statement if that meets both conditions. -/
def orderly (w : Calls) (i : ℕ) : Option Calls :=
  follow (Stmt.unless fun s x => s.contends x || (s.stores && w.threads.any prepared)) [i] w

/-- The lease is not its service's when a caller enters. -/
theorem LeaseRun.enters {x : Store} {w : Calls} (h : LeaseRun NoReentry (.start x) w)
    {owner : String} {now : ℕ} (hfree : Stmt.contends (.acquire owner now) w.state = false) :
    ∀ p ∈ w.threads, ¬ Holds owner p := by
  intro p hp hholds
  obtain ⟨gs, hgs, hguarded⟩ := h.guarded
  obtain ⟨g, hg, hfollows⟩ := forall₂_mem_left hgs hp
  obtain ⟨sequence, rfl⟩ := inside_of_holds hfollows hholds
  obtain ⟨lease, hlease, hown⟩ := hguarded.owned owner sequence hg
  rw [Stmt.contends, hlease] at hfree
  simp [hown] at hfree

theorem orderly_run {x : Store} {w w' : Calls} {i : ℕ} (h : OrderlyRun (.start x) w)
    (hstep : orderly w i = some w') : OrderlyRun (.start x) w' := by
  obtain ⟨s, a, ⟨y, haccepted⟩, hexecutes, hstep⟩ := follow_step hstep
  have hentry : LeaseRun NoReentry (.start x) w :=
    ReflTransGen.mono (fun _ _ h => ⟨h.1, h.2.1, h.2.2.1⟩) _ _ h
  obtain ⟨hfree, hready⟩ := Bool.or_eq_false_iff.mp (Stmt.not_refused haccepted)
  refine h.tail ⟨hstep, ?_, ?_, ?_⟩
  · intro owner now b hother lease hlease
    obtain rfl : s = .acquire owner now :=
      congrArg Sigma.fst (List.cons.inj (hexecutes.symm.trans hother)).1
    rw [Stmt.contends, hlease] at hfree
    simp only [Option.any_some, Bool.or_eq_false_iff, decide_eq_false_iff_not, not_le] at hfree
    exact hfree.1
  · intro owner now hother
    obtain rfl : s = .acquire owner now :=
      congrArg Sigma.fst (List.cons.inj (hexecutes.symm.trans hother)).1
    exact hentry.enters hfree
  · intro e he hstored p hp hprepared
    obtain rfl := (List.cons.inj (hexecutes.symm.trans he)).1
    have hany : w.threads.any prepared = true := List.any_eq_true.mpr ⟨p, hp, prepared_of_Prepared hprepared⟩
    rw [hany, Bool.and_true] at hready
    cases s with
    | append event => cases hready
    | consume inboxId join source target event followUp => cases hready
    | _ => exact hstored

theorem orderly_runs {x : Store} {schedule : List ℕ} {w w' : Calls} (h : OrderlyRun (.start x) w)
    (hsteps : schedule.foldlM orderly w = some w') : OrderlyRun (.start x) w' := by
  induction schedule generalizing w with
  | nil =>
    obtain rfl := Option.some.inj hsteps
    exact h
  | cons i rest ih =>
    obtain ⟨w₁, hfirst, hrest⟩ := Option.bind_eq_some_iff.mp hsteps
    exact ih (orderly_run h hfirst) hrest

/-- Two services append, and one of them also consumes a source. -/
def twoServices : List (Program Unit) :=
  [do let _ ← appendEvent "first" (.lifecycleChanged .running),
   do let _ ← appendEvent "second" (.lifecycleChanged .cancelling),
   do let _ ← consumeSourceEventWithEffects "second" 10 ⟨"join", 0⟩ ⟨"a", 0⟩ none none]

theorem twoServices_leaseCall : ∀ p ∈ twoServices, LeaseCall p := by
  intro p hp
  rcases List.mem_cons.mp hp with rfl | hp
  · exact .appendEvent "first" (.lifecycleChanged .running)
  rcases List.mem_pair.mp hp with rfl | rfl
  · exact .appendEvent "second" (.lifecycleChanged .cancelling)
  · exact .consumeSourceEvent "second" 10 ⟨"join", 0⟩ ⟨"a", 0⟩ none none

/-- A run with a join whose source has ended. -/
@[reducible] def joinStore : Store :=
  { idleStore with
    plan := [⟨"join", 1, ["a"], .each, .allowPartial, .continue, .serial⟩]
    nodes := [⟨⟨"a", 0⟩, 0, .pending⟩, ⟨⟨"join", 0⟩, 1, .pending⟩]
    links := [⟨⟨"a", 0⟩, 1, .caller "a"⟩]
    inbox := [⟨10, ⟨100, 1, 5, some ⟨"a", 0⟩, .lifecycleChanged .succeeded⟩, .processing, 1⟩]
    clock := 3
    nextId := 20 }

/-- The calls of the two services, with nothing done. -/
def begun : Calls := ⟨[], joinStore, twoServices⟩

theorem begun_run : OrderlyRun (.start joinStore) begun := by
  refine stepsWhen_spawn (fun tr x ts p => ⟨?_, ?_, ?_⟩) twoServices_leaseCall
  · exact fun owner now a hexecutes => absurd hexecutes List.ne_cons_self
  · exact fun owner now hexecutes => absurd hexecutes List.ne_cons_self
  · exact fun e he => absurd he List.ne_cons_self

/-- The time at which a lease expires that is acquired now. -/
def expired (w : Calls) : Calls :=
  { w with state := { w.state with clock := w.state.clock + leaseTtl } }

theorem expired_between (w : Calls) : Between w (expired w) := by
  refine .single ⟨Step.env ⟨rfl, rfl, rfl, Nat.le_add_right _ _⟩, ?_⟩
  exact fun owner now hexecutes => absurd hexecutes List.ne_cons_self

/-- The second service is refused while the first is inside, and later consumes the source with the
next sequence number and the first token. When the lease was taken over instead, the token is larger. -/
theorem lease_serialises_two :
    (∃ w w' : Calls, OrderlyRun (.start joinStore) w ∧ Exclusive w ∧
      (∃ p ∈ w.threads, Holds "first" p) ∧ w.trace.head? = some ⟨.acquire "second" 3, false⟩ ∧
      OrderlyRun (.start joinStore) w' ∧ Exclusive w' ∧ (∃ p ∈ w'.threads, Holds "second" p) ∧
      w'.state.events.map (·.sequence) = [2, 1] ∧ ∀ e ∈ w'.trace, ¬ Rejected e) ∧
    (∃ w₁ w₁' w₂ w₂' : Calls, Acquires w₁ w₁' ∧ Between w₁' w₂ ∧ Acquires w₂ w₂' ∧
      ¬ token w₁' < token w₂') ∧
    ∃ w₁ w₁' w₂ w₂' : Calls, Acquires w₁ w₁' ∧ Between w₁' w₂ ∧ Acquires w₂ w₂' ∧
      token w₁' < token w₂' := by
  have hsequenced : joinStore.Sequenced := fun e he => (List.not_mem_nil he).elim
  obtain ⟨hexclusive, _, haccepted, htoken⟩ := lease_serialises hsequenced
  have hentry : ∀ w, OrderlyRun (.start joinStore) w → Exclusive w := fun w h =>
    hexclusive w (ReflTransGen.mono (fun _ _ h => ⟨h.1, h.2.1, h.2.2.1⟩) _ _ h)
  refine ⟨?_, ?_, ?_⟩
  · obtain ⟨w, hw, ⟨p, rest, hp, hholds⟩, hrefused, w', hw', ⟨q, r, p', hp', hholds'⟩, hsequences⟩ :
        ∃ w : Calls, [0, 0, 1, 1].foldlM orderly begun = some w ∧
        (∃ p rest, w.threads = p :: rest ∧ Holds "first" p) ∧
        w.trace.head? = some ⟨.acquire "second" 3, false⟩ ∧
        ∃ w' : Calls, [0, 0, 0, 0, 2, 2, 2, 2, 2, 2].foldlM orderly w = some w' ∧
        (∃ q r p, w'.threads = [q, r, p] ∧ Holds "second" p) ∧
        w'.state.events.map (·.sequence) = [2, 1] :=
      ⟨_, rfl, ⟨_, _, rfl, fun _ _ _ => rfl⟩, rfl, _, rfl, ⟨_, _, _, rfl, rfl⟩, rfl⟩
    have hrun := orderly_runs begun_run hw
    have hrun' := orderly_runs hrun hw'
    exact ⟨w, w', hrun, hentry w hrun, ⟨p, by simp [hp], hholds⟩, hrefused, hrun', hentry w' hrun',
      ⟨p', by simp [hp'], hholds'⟩, hsequences, haccepted w' hrun'⟩
  · obtain ⟨w₁, _, w₁', h₁, hexecutes₁, w₂, h₂, w₂', h₂', hexecutes₂, hreleased⟩ : ∃ w₁ : Calls,
        follow (Stmt.unless Stmt.takesOver) [0] begun = some w₁ ∧ ∃ w₁' : Calls,
        follow (Stmt.unless Stmt.takesOver) [0] w₁ = some w₁' ∧
        Executes (.acquire "first" 3) true w₁ w₁' ∧ ∃ w₂ : Calls,
        follow (Stmt.unless Stmt.acquires) [0, 0, 0, 0, 2, 2] w₁' = some w₂ ∧ ∃ w₂' : Calls,
        follow (Stmt.unless Stmt.takesOver) [2] w₂ = some w₂' ∧
        Executes (.acquire "second" 3) true w₂ w₂' ∧ w₂.state.lease = none :=
      ⟨_, rfl, _, rfl, rfl, _, rfl, _, rfl, rfl, rfl⟩
    refine ⟨w₁, w₁', w₂, w₂', follow_acquires h₁ hexecutes₁, follow_between h₂,
      follow_acquires h₂' hexecutes₂, ?_⟩
    rw [htoken _ _ _ _ (follow_acquires h₁ hexecutes₁) (follow_between h₂)
      (follow_acquires h₂' hexecutes₂)]
    exact not_not.mpr hreleased
  · obtain ⟨w₁, _, w₁', h₁, hexecutes₁, w₂, h₂, w₂', h₂', hexecutes₂, hstored⟩ : ∃ w₁ : Calls,
        follow (Stmt.unless Stmt.takesOver) [0] begun = some w₁ ∧ ∃ w₁' : Calls,
        follow (Stmt.unless Stmt.takesOver) [0] w₁ = some w₁' ∧
        Executes (.acquire "first" 3) true w₁ w₁' ∧ ∃ w₂ : Calls,
        follow (Stmt.unless Stmt.acquires) [1] (expired w₁') = some w₂ ∧ ∃ w₂' : Calls,
        follow (Stmt.unless fun _ _ => false) [1] w₂ = some w₂' ∧
        Executes (.acquire "second" (3 + leaseTtl)) true w₂ w₂' ∧ w₂.state.lease ≠ none :=
      ⟨_, rfl, _, rfl, rfl, _, rfl, _, rfl, rfl, Option.some_ne_none _⟩
    have hbetween := (expired_between w₁').trans (follow_between h₂)
    refine ⟨w₁, w₁', w₂, w₂', follow_acquires h₁ hexecutes₁, hbetween,
      follow_acquires h₂' hexecutes₂, ?_⟩
    rw [htoken _ _ _ _ (follow_acquires h₁ hexecutes₁) hbetween (follow_acquires h₂' hexecutes₂)]
    exact hstored

end Fixture

end VibeKanban.Orchestration
