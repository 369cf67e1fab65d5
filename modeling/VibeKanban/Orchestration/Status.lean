import VibeKanban.Lib.Discipline
import VibeKanban.Orchestration.Effects

/-! The status of the run: what the reducer makes of any sequence of events, and what interleaved
calls that read the status first and append it later make of it. -/
namespace VibeKanban.Orchestration
open Lib Relation

section Reducer

/-- The states after each event of a sequence, as long as every event is accepted. -/
def reduceEvents : OrchestrationState → List OrchestrationEventEnvelope →
    Except OrchestrationPersistenceError (List OrchestrationState)
  | _, [] => .ok []
  | state, event :: rest =>
    match reduceOrchestrationEvent state event with
    | .error error => .error error
    | .ok (next, _) => (reduceEvents next rest).map (next :: ·)

/-- The event is newer than the sequence number and names another terminal status. -/
def Overrides (last : ℕ) (status : OrchestrationRunStatus) (event : OrchestrationEventEnvelope) :
    Prop :=
  last < event.sequence ∧
    ∃ other, event.payload = .lifecycleChanged other ∧ other.isTerminal = true ∧ other ≠ status

/-- Some event overrides the status after those before it. -/
def Overridden (status : OrchestrationRunStatus) : ℕ → List OrchestrationEventEnvelope → Prop
  | _, [] => False
  | last, event :: rest =>
    Overrides last status event ∨ Overridden status (max last event.sequence) rest

/-- What an accepted event does to the status and the sequence number. -/
theorem reduceOrchestrationEvent_ok {state next : OrchestrationState}
    {event : OrchestrationEventEnvelope} {apply : OrchestrationReducerApply}
    (h : reduceOrchestrationEvent state event = .ok (next, apply)) :
    (next = state ∧ event.sequence = state.lastEventSequence) ∨
      state.lastEventSequence < event.sequence ∧ next.lastEventSequence = event.sequence ∧
      next.status = (applyPayload state event.payload).1.status := by
  unfold reduceOrchestrationEvent at h
  split_ifs at h with hzero hold hsame
  · cases h
    simp only [Bool.and_eq_true, decide_eq_true_eq] at hsame
    exact Or.inl ⟨rfl, hsame.1⟩
  · dsimp only at h
    cases h
    refine Or.inr ⟨by omega, rfl, ?_⟩
    cases event.payload with
    | lifecycleChanged status =>
      dsimp only [applyPayload]
      split_ifs
      · rfl
      · rfl
    | _ => rfl

/-- From a terminal status only an overriding event leads away. -/
theorem applyPayload_status {state : OrchestrationState} (payload : OrchestrationEventPayload)
    (hterminal : state.status.isTerminal = true) :
    (applyPayload state payload).1.status = state.status ↔
      ¬ ∃ other, payload = .lifecycleChanged other ∧ other.isTerminal = true ∧
        other ≠ state.status := by
  cases payload with
  | lifecycleChanged status =>
    dsimp only [applyPayload]
    by_cases hstatus : status.isTerminal = true
    · rw [if_neg (by simp [hstatus])]
      constructor
      · rintro rfl ⟨other, hother, _, hne⟩
        cases hother
        exact hne rfl
      · intro h
        by_contra hne
        exact h ⟨status, rfl, hstatus, hne⟩
    · rw [if_pos (by simp [hterminal, hstatus])]
      refine iff_of_true rfl ?_
      rintro ⟨other, hother, hterm, _⟩
      cases hother
      exact hstatus hterm
  | _ =>
    refine iff_of_true rfl ?_
    rintro ⟨other, hother, _⟩
    cases hother

theorem reduceOrchestrationEvent_status {state next : OrchestrationState}
    {event : OrchestrationEventEnvelope} {apply : OrchestrationReducerApply}
    (hterminal : state.status.isTerminal = true)
    (h : reduceOrchestrationEvent state event = .ok (next, apply)) :
    (next.status = state.status ↔ ¬ Overrides state.lastEventSequence state.status event) ∧
      next.lastEventSequence = max state.lastEventSequence event.sequence := by
  rcases reduceOrchestrationEvent_ok h with ⟨rfl, hsequence⟩ | ⟨hnewer, hlast, hstatus⟩
  · refine ⟨iff_of_true rfl ?_, by omega⟩
    rintro ⟨hnewer, _⟩
    omega
  · refine ⟨?_, by omega⟩
    rw [hstatus, applyPayload_status _ hterminal, Overrides, and_iff_right hnewer]

/-- A sequence of accepted events keeps a terminal status if and only if none of them overrides
it. -/
theorem reduceEvents_status {state : OrchestrationState} {events : List OrchestrationEventEnvelope}
    {states : List OrchestrationState} (hterminal : state.status.isTerminal = true)
    (h : reduceEvents state events = .ok states) :
    (∀ next ∈ states, next.status = state.status) ↔
      ¬ Overridden state.status state.lastEventSequence events := by
  induction events generalizing state states with
  | nil =>
    cases h
    exact iff_of_true (fun next hnext => (List.not_mem_nil hnext).elim) id
  | cons event rest ih =>
    unfold reduceEvents at h
    split at h
    next => cases h
    next next apply hreduce =>
      obtain ⟨hstatus, hlast⟩ := reduceOrchestrationEvent_status hterminal hreduce
      cases hrest : reduceEvents next rest with
      | error error =>
        rw [hrest] at h
        cases h
      | ok later =>
        rw [hrest] at h
        cases h
        rw [List.forall_mem_cons, Overridden, not_or, ← hlast]
        constructor
        · rintro ⟨hnext, hlater⟩
          refine ⟨hstatus.mp hnext, ?_⟩
          rw [← hnext] at hterminal hlater ⊢
          exact (ih hterminal hrest).mp hlater
        · rintro ⟨hevent, hlater⟩
          have hnext := hstatus.mpr hevent
          refine ⟨hnext, ?_⟩
          rw [← hnext] at hterminal hlater ⊢
          exact (ih hterminal hrest).mpr hlater

end Reducer

/-- The calls that append statuses of the run. -/
inductive StatusCall : Program Unit → Prop where
  | cancel (owner : String) : StatusCall (do let _ ← cancel owner)
  | refresh (owner : String) : StatusCall (do let _ ← refreshRunProjection owner)
  | reconcile (owner : String) : StatusCall (do let _ ← reconcileRun owner)

def OrchestrationEventPayload.isTerminal : OrchestrationEventPayload → Bool
  | .lifecycleChanged status => status.isTerminal
  | _ => false

/-- The statement appends a terminal status. -/
def Stmt.terminates (s : Stmt) : Bool := s.event?.any (·.payload.isTerminal)

/-- The program can append a terminal status before it reads the status again. -/
def Decides : Program Unit → Prop
  | .op .readStatus _ => False
  | .op s k => s.terminates = true ∨ ∃ a, Decides (k a)
  | _ => False

/-- When a terminal status is appended, no two calls are about to append one. -/
def OneDecision (w w' : Calls) : Prop :=
  ∀ s a, Executes s a w w' → s.terminates = true →
    w.threads.Pairwise fun p q => ¬ (Decides p ∧ Decides q)

/-- Anything but the status of the run changes around the calls. -/
def StatusRun (C : Calls → Calls → Prop) : Calls → Calls → Prop :=
  StepsWhen Stmt.Exec (fun x y => y.state.status = x.state.status) StatusCall C

section Discipline

/-- A call may append a terminal status after it read one that is not, once. -/
def statusDiscipline : Discipline Stmt Stmt.Ans Bool where
  allowed s g := s.terminates = true → g = true
  possible _ _ _ := True
  next s a g :=
    match s, a with
    | .readStatus, status => !status.isTerminal
    | s, _ => g && !s.terminates
  final _ := True

theorem next_readStatus (status : OrchestrationRunStatus) (g : Bool) :
    statusDiscipline.next .readStatus status g = !status.isTerminal := rfl

theorem next_of_ne {s : Stmt} (hs : s ≠ .readStatus) (a : s.Ans) (g : Bool) :
    statusDiscipline.next s a g = (g && !s.terminates) := by
  cases s with
  | readStatus => exact absurd rfl hs
  | _ => rfl

theorem neutral_exec {s : Stmt} (hs : s ≠ .readStatus) (hterminates : s.terminates = false) :
    statusDiscipline.Neutral (Program.exec s) := by
  refine Discipline.Neutral.stmt ?_ ?_
  · intro g h
    rw [hterminates] at h
    cases h
  · intro a g
    rw [next_of_ne hs, hterminates]
    simp

theorem neutral_persisted {α : Type} (result : Except OrchestrationPersistenceError α) :
    statusDiscipline.Neutral (Program.persisted result) := .ofExcept _

theorem neutral_appendEvent {owner : String} {payload : OrchestrationEventPayload}
    (h : payload.isTerminal = false) : statusDiscipline.Neutral (appendEvent owner payload) := by
  refine (neutral_exec (by simp) rfl).bind fun now => ?_
  refine (neutral_exec (by simp) rfl).bind fun acquired => ?_
  cases acquired with
  | false => exact .fail _
  | true =>
    refine (neutral_exec (by simp) rfl).bind fun sequence => ?_
    refine (neutral_exec (by simp) rfl).bind fun id => ?_
    refine Discipline.Neutral.bind (neutral_exec (by simp) ?_) fun result => ?_
    · exact h
    · exact (neutral_exec (by simp) rfl).bind fun _ => neutral_persisted result

/-- A status is appended by a call that may do so. -/
theorem appendEvent_keeps {owner : String} {payload : OrchestrationEventPayload} :
    statusDiscipline.Keeps (appendEvent owner payload) (fun _ _ => True) true := by
  refine (neutral_exec (by simp) rfl).keeps_bind (fun now => ?_) fun _ => trivial
  refine (neutral_exec (by simp) rfl).keeps_bind (fun acquired => ?_) fun _ => trivial
  cases acquired with
  | false => trivial
  | true =>
    refine (neutral_exec (by simp) rfl).keeps_bind (fun sequence => ?_) fun _ => trivial
    refine (neutral_exec (by simp) rfl).keeps_bind (fun id => ?_) fun _ => trivial
    refine Discipline.keeps_step (fun _ => rfl) fun result _ => ?_
    refine (neutral_exec (by simp) rfl).keeps_bind (fun _ => ?_) fun _ => trivial
    exact Discipline.keeps_mono (neutral_persisted result _) fun _ _ _ => trivial

theorem neutral_enqueueCommand {owner : String} {command : AgentRunPortCommandEnvelope}
    (h : command.command.launches = false) :
    statusDiscipline.Neutral (enqueueCommand owner command) := by
  unfold enqueueCommand dispatchStopped
  rw [if_neg (by simp [h])]
  refine (neutral_exec (by simp) rfl).bind fun id => ?_
  refine (neutral_exec (by simp) rfl).bind fun result => ?_
  refine (neutral_persisted result).bind fun (outboxId, inserted) => ?_
  cases inserted with
  | false => exact .pure _
  | true => exact (neutral_appendEvent rfl).bind fun _ => .pure _

theorem neutral_applyFailFastCancellation (owner : String) :
    statusDiscipline.Neutral (applyFailFastCancellation owner) := by
  refine (neutral_exec (by simp) rfl).bind fun now => ?_
  refine (neutral_exec (by simp) rfl).bind fun undispatched => ?_
  refine (Discipline.Neutral.forEach (fun node => ?_) _).bind fun _ => ?_
  · exact (neutral_appendEvent rfl).bind fun _ => .pure _
  refine (neutral_exec (by simp) rfl).bind fun active => ?_
  refine Discipline.Neutral.forEach (fun (node, run) => ?_) _
  refine (neutral_appendEvent rfl).bind fun _ => ?_
  exact (neutral_enqueueCommand rfl).bind fun _ => .pure _

/-- A projection reads the status before it appends one. -/
theorem refreshRunProjection_keeps (owner : String) (g : Bool) :
    statusDiscipline.Keeps (refreshRunProjection owner) (fun _ _ => True) g := by
  refine Discipline.keeps_step (fun h => by cases h) fun current _ => ?_
  rw [next_readStatus]
  by_cases hterminal : current.isTerminal = true
  · rw [if_pos hterminal]
    exact Discipline.keeps_pure trivial
  · rw [if_neg hterminal, Bool.not_eq_true _ |>.mp hterminal]
    refine (neutral_exec (by simp) rfl).keeps_bind (fun nodes => ?_) fun _ => trivial
    refine (neutral_exec (by simp) rfl).keeps_bind (fun plan => ?_) fun _ => trivial
    split_ifs with hfailed
    · refine (neutral_applyFailFastCancellation owner).keeps_bind (fun _ => ?_) fun _ => trivial
      refine Discipline.keeps_bind.mpr (Discipline.keeps_mono appendEvent_keeps ?_)
      intro r _ _
      cases r <;> trivial
    · dsimp only
      split_ifs
      · refine Discipline.keeps_bind.mpr (Discipline.keeps_mono appendEvent_keeps ?_)
        intro r _ _
        cases r <;> trivial
      · exact Discipline.keeps_pure trivial

theorem neutral_cancelChild (owner : String) (node : NodeExecutionId) (run : ℕ) :
    statusDiscipline.Neutral (cancelChild owner node run) := by
  refine (neutral_exec (by simp) rfl).bind fun queued => ?_
  split_ifs
  · refine (neutral_exec (by simp) rfl).bind fun now => ?_
    exact (neutral_enqueueCommand rfl).bind fun _ => .pure _
  · exact .pure _

theorem cancel_keeps (owner : String) (g : Bool) :
    statusDiscipline.Keeps (cancel owner) (fun _ _ => True) g := by
  have hrest : ∀ apply g, statusDiscipline.Keeps (do
      let undispatched ← Program.exec .cancelUndispatched
      Prog.forEach (fun node => do
        let _ ← appendEvent owner (.nodeStatusChanged node .cancelled)) undispatched
      let linked ← Program.exec .cancelLinked
      Prog.forEach (fun child => do
        let _ ← appendEvent owner (.nodeStatusChanged child.1 .cancelling)) linked
      let children ← Program.read (·.activeChildren)
      Prog.forEach (fun child => cancelChild owner child.1 child.2) children
      let _ ← refreshRunProjection owner
      return apply : Program OrchestrationReducerApply) (fun _ _ => True) g := by
    intro apply g
    refine (neutral_exec (by simp) rfl).keeps_bind (fun undispatched => ?_) fun _ => trivial
    refine (Discipline.Neutral.forEach (fun node => ?_) _).keeps_bind (fun _ => ?_) fun _ => trivial
    · exact (neutral_appendEvent rfl).bind fun _ => .pure _
    refine (neutral_exec (by simp) rfl).keeps_bind (fun linked => ?_) fun _ => trivial
    refine (Discipline.Neutral.forEach (fun child => ?_) _).keeps_bind (fun _ => ?_) fun _ => trivial
    · exact (neutral_appendEvent rfl).bind fun _ => .pure _
    refine (neutral_exec (by simp) rfl).keeps_bind (fun children => ?_) fun _ => trivial
    refine (Discipline.Neutral.forEach (fun child => ?_) _).keeps_bind (fun _ => ?_) fun _ => trivial
    · exact neutral_cancelChild owner child.1 child.2
    refine Discipline.keeps_bind.mpr (Discipline.keeps_mono (refreshRunProjection_keeps owner _) ?_)
    intro r _ _
    cases r <;> trivial
  refine Discipline.keeps_step (fun h => by cases h) fun current _ => ?_
  split_ifs with hterminal hcancelling
  · exact Discipline.keeps_pure trivial
  · exact hrest _ _
  · exact (neutral_appendEvent rfl).keeps_bind (fun apply => hrest apply _) fun _ => trivial

theorem neutral_reconcileChild (owner : String) (node : NodeExecutionId) (run : ℕ)
    (current : OrchestrationNodeStatus) :
    statusDiscipline.Neutral (reconcileChild owner node run current) := by
  refine (neutral_exec (by simp) rfl).bind fun answer => ?_
  split
  · exact .pure _
  · exact .pure _
  · exact .fail _
  · dsimp only
    split_ifs
    · exact .pure _
    · refine (neutral_exec (by simp) rfl).bind fun _ => ?_
      exact (neutral_appendEvent rfl).bind fun _ => .pure _

theorem neutral_resumeSerialQueuesForRun :
    statusDiscipline.Neutral resumeSerialQueuesForRun := by
  refine (neutral_exec (by simp) rfl).bind fun plan => ?_
  refine (Discipline.Neutral.collect (fun node => ?_) _).bind fun _ => .pure _
  refine (neutral_exec (by simp) rfl).bind fun now => ?_
  exact (neutral_exec (by simp) rfl).bind fun result => neutral_persisted result

theorem reconcileRun_keeps (owner : String) (g : Bool) :
    statusDiscipline.Keeps (reconcileRun owner) (fun _ _ => True) g := by
  have hrest : ∀ g, statusDiscipline.Keeps (do
      let children ← Program.read (·.activeRows)
      let unreachable ← Prog.collect
        (fun child => reconcileChild owner child.1 child.2.1 child.2.2) children
      let _ ← resumeSerialQueuesForRun
      let _ ← refreshRunProjection owner
      return unreachable.sum : Program ℕ) (fun _ _ => True) g := by
    intro g
    refine (neutral_exec (by simp) rfl).keeps_bind (fun children => ?_) fun _ => trivial
    refine (Discipline.Neutral.collect (fun child => ?_) _).keeps_bind (fun unreachable => ?_)
      fun _ => trivial
    · exact neutral_reconcileChild owner child.1 child.2.1 child.2.2
    refine neutral_resumeSerialQueuesForRun.keeps_bind (fun _ => ?_) fun _ => trivial
    refine Discipline.keeps_bind.mpr (Discipline.keeps_mono (refreshRunProjection_keeps owner _) ?_)
    intro r _ _
    cases r <;> trivial
  refine Discipline.keeps_step (fun h => by cases h) fun status _ => ?_
  split_ifs
  · refine Discipline.keeps_bind.mpr (Discipline.keeps_mono (cancel_keeps owner _) ?_)
    intro r g _
    cases r with
    | ok apply => exact hrest g
    | error e => trivial
  · exact hrest _

theorem statusCall_follows {p : Program Unit} (h : StatusCall p) (g : Bool) :
    statusDiscipline.Follows p g := by
  have hvoid : ∀ {α : Type} {p : Program α}, statusDiscipline.Keeps p (fun _ _ => True) g →
      statusDiscipline.Follows (do let _ ← p) g := by
    intro α p hp
    refine Discipline.keeps_bind.mpr (Discipline.keeps_mono hp ?_)
    intro r _ _
    cases r <;> trivial
  cases h with
  | cancel owner => exact hvoid (cancel_keeps owner g)
  | refresh owner => exact hvoid (refreshRunProjection_keeps owner g)
  | reconcile owner => exact hvoid (reconcileRun_keeps owner g)

theorem decides_of_step {s : Stmt} {k : s.Ans → Program Unit} (hs : s ≠ .readStatus)
    (h : s.terminates = true ∨ ∃ a, Decides (k a)) : Decides (.op s k) := by
  cases s with
  | readStatus => exact absurd rfl hs
  | _ => exact h

/-- A call that does not decide reads the status before it appends a terminal one. -/
theorem follows_of_not_decides {p : Program Unit} {g : Bool} (h : statusDiscipline.Follows p g)
    (hp : ¬ Decides p) : statusDiscipline.Follows p false := by
  induction p generalizing g with
  | ret a => trivial
  | fail e => trivial
  | op s k ih =>
    by_cases hs : s = .readStatus
    · subst hs
      exact ⟨fun hterminates => (Bool.false_ne_true hterminates).elim, h.2⟩
    · refine ⟨fun hterminates => absurd (decides_of_step hs (Or.inl hterminates)) hp, ?_⟩
      rintro a _ ⟨_, rfl⟩
      rw [next_of_ne hs, Bool.false_and]
      exact ih a (h.2 a _ ⟨trivial, rfl⟩) fun ha => hp (decides_of_step hs (Or.inr ⟨a, ha⟩))

end Discipline

section Runs

/-- Every call follows the discipline, and none of them may end a run that has ended. -/
structure Settled (w : Calls) : Prop where
  follows : ∀ p ∈ w.threads, ∃ g, statusDiscipline.Follows p g
  ended : w.state.state.status.isTerminal = true →
    ∀ p ∈ w.threads, statusDiscipline.Follows p false

/-- The status changes only when an event is appended. -/
theorem status_of_exec {s : Stmt} {x y : Store} {a : s.Ans} (h : s.Exec x a y) :
    y.state.status = x.state.status ∨ ∃ event, s.event? = some event ∧
      y.state.status = (applyPayload x.state event.payload).1.status := by
  rcases exec_log h with ⟨hstate, _⟩ | ⟨event, hevent, x₁, x₂, apply, hbefore, happend, hafter⟩
  · exact Or.inl (by rw [hstate])
  · rw [hafter.state, ← hbefore.state]
    rcases appendAndProject_ok happend with ⟨_, _, rfl⟩ | ⟨state, hreduce, rfl⟩
    · exact Or.inl rfl
    · rcases reduceOrchestrationEvent_ok hreduce with ⟨rfl, _⟩ | ⟨_, _, hstatus⟩
      · exact Or.inl rfl
      · exact Or.inr ⟨event, hevent, hstatus⟩

/-- A run that has ended is changed only by the append of a terminal status. -/
theorem status_of_ended {s : Stmt} {x y : Store} {a : s.Ans} (h : s.Exec x a y)
    (hs : s.terminates = false) (hended : x.state.status.isTerminal = true) :
    y.state.status = x.state.status := by
  rcases status_of_exec h with hsame | ⟨event, hevent, hstatus⟩
  · exact hsame
  · rw [hstatus, applyPayload_status _ hended]
    rintro ⟨other, hother, hterminal, _⟩
    unfold Stmt.terminates at hs
    rw [hevent, Option.any_some, hother] at hs
    exact Bool.false_ne_true (hs.symm.trans hterminal)

/-- Only the append of a terminal status ends a run. -/
theorem terminates_of_exec {s : Stmt} {x y : Store} {a : s.Ans} (h : s.Exec x a y)
    (hopen : ¬ x.state.status.isTerminal = true) (hended : y.state.status.isTerminal = true) :
    s.terminates = true := by
  rcases status_of_exec h with hsame | ⟨event, hevent, hstatus⟩
  · exact absurd (hsame ▸ hended) hopen
  · unfold Stmt.terminates
    rw [hevent, Option.any_some]
    rw [hstatus] at hended
    cases hpayload : event.payload with
    | lifecycleChanged status =>
      rw [hpayload] at hended
      dsimp only [applyPayload] at hended
      split_ifs at hended
      · exact absurd hended hopen
      · exact hended
    | _ =>
      rw [hpayload] at hended
      exact absurd hended hopen

theorem ne_readStatus_of_terminates {s : Stmt} (h : s.terminates = true) : s ≠ .readStatus := by
  rintro rfl
  cases h

/-- A statement of one call. The run is open before, or the call is barred. -/
theorem Settled.act {tr : List (Sigma Stmt.Ans)} {x y : Store} {before after : List (Program Unit)}
    {s : Stmt} {k : s.Ans → Program Unit} {a : s.Ans}
    (h : Settled ⟨tr, x, before ++ .op s k :: after⟩) (hexec : s.Exec x a y)
    (hone : OneDecision ⟨tr, x, before ++ .op s k :: after⟩ ⟨⟨s, a⟩ :: tr, y, before ++ k a :: after⟩) :
    Settled ⟨⟨s, a⟩ :: tr, y, before ++ k a :: after⟩ ∧
      (x.state.status.isTerminal = true → y.state.status = x.state.status) := by
  obtain ⟨g, hg⟩ := h.follows (.op s k) (by simp)
  have hother : ∀ p ∈ before ++ after, p ∈ before ++ .op s k :: after := by
    intro p hp
    rcases List.mem_append.mp hp with hp | hp
    · exact List.mem_append_left _ hp
    · exact List.mem_append_right _ (List.mem_cons_of_mem _ hp)
  have hsplit : ∀ {P : Program Unit → Prop}, P (k a) → (∀ p ∈ before ++ after, P p) →
      ∀ p ∈ before ++ k a :: after, P p := by
    intro P hk hrest p hp
    rcases List.mem_append.mp hp with hp | hp
    · exact hrest p (List.mem_append_left _ hp)
    · rcases List.mem_cons.mp hp with rfl | hp
      · exact hk
      · exact hrest p (List.mem_append_right _ hp)
  have hfollows : ∀ p ∈ before ++ k a :: after, ∃ g, statusDiscipline.Follows p g :=
    hsplit ⟨_, hg.2 a _ ⟨trivial, rfl⟩⟩ fun p hp => h.follows p (hother p hp)
  by_cases hended : x.state.status.isTerminal = true
  · have hbarred := h.ended hended
    have hs : s.terminates = false := by
      cases hs : s.terminates with
      | false => rfl
      | true => exact absurd ((hbarred (.op s k) (by simp)).1 hs) Bool.false_ne_true
    have hstatus := status_of_ended hexec hs hended
    refine ⟨⟨hfollows, fun _ => ?_⟩, fun _ => hstatus⟩
    refine hsplit ?_ fun p hp => hbarred p (hother p hp)
    have hnext := (hbarred (.op s k) (by simp)).2 a _ ⟨trivial, rfl⟩
    by_cases hread : s = .readStatus
    · subst hread
      obtain ⟨rfl, _⟩ := Prod.mk.inj hexec
      rw [next_readStatus] at hnext
      rw [hended] at hnext
      exact hnext
    · rwa [next_of_ne hread, Bool.false_and] at hnext
  · refine ⟨⟨hfollows, fun hended' => ?_⟩, fun h => absurd h hended⟩
    have hs := terminates_of_exec hexec hended hended'
    have hread := ne_readStatus_of_terminates hs
    have hdecides : Decides (.op s k) := decides_of_step hread (Or.inl hs)
    have hpairwise := hone s a rfl hs
    rw [List.pairwise_append] at hpairwise
    obtain ⟨_, hlater, hearlier⟩ := hpairwise
    have hlater := (List.pairwise_cons.mp hlater).1
    refine hsplit ?_ ?_
    · have hnext := hg.2 a _ ⟨trivial, rfl⟩
      rwa [next_of_ne hread, hs, Bool.not_true, Bool.and_false] at hnext
    · intro p hp
      obtain ⟨g', hg'⟩ := h.follows p (hother p hp)
      refine follows_of_not_decides hg' fun hp' => ?_
      rcases List.mem_append.mp hp with hp | hp
      · exact hearlier p hp _ List.mem_cons_self ⟨hp', hdecides⟩
      · exact hlater p hp ⟨hdecides, hp'⟩

theorem Settled.step {w w' : Calls} (h : Settled w)
    (hstep : Step Stmt.Exec (fun x y => y.state.status = x.state.status) StatusCall
      (fun _ _ => True) w w') (hone : OneDecision w w') :
    Settled w' ∧ (w.state.state.status.isTerminal = true →
      w'.state.state.status = w.state.state.status) := by
  cases hstep with
  | spawn hp =>
    refine ⟨⟨?_, ?_⟩, fun _ => rfl⟩
    · exact List.forall_mem_cons.mpr ⟨⟨true, statusCall_follows hp true⟩, h.follows⟩
    · exact fun hended => List.forall_mem_cons.mpr ⟨statusCall_follows hp false, h.ended hended⟩
  | act _ hexec => exact h.act hexec hone
  | drop =>
    have hmem : ∀ {before after : List (Program Unit)} {p q}, q ∈ before ++ after →
        q ∈ before ++ p :: after := by
      intro before after p q hq
      simp only [List.mem_append, List.mem_cons] at hq ⊢
      tauto
    exact ⟨⟨fun q hq => h.follows q (hmem hq), fun hended q hq => h.ended hended q (hmem hq)⟩,
      fun _ => rfl⟩
  | env henv => exact ⟨⟨h.follows, fun hended => h.ended (henv ▸ hended)⟩, fun _ => henv⟩

theorem Settled.run {w w' : Calls} (h : Settled w) (hrun : StatusRun OneDecision w w') :
    Settled w' ∧ (w.state.state.status.isTerminal = true →
      w'.state.state.status = w.state.state.status) := by
  induction hrun with
  | refl => exact ⟨h, fun _ => rfl⟩
  | tail _ hstep ih =>
    obtain ⟨hsettled, hsame⟩ := ih
    obtain ⟨hsettled', hsame'⟩ := hsettled.step hstep.1 hstep.2
    refine ⟨hsettled', fun hended => ?_⟩
    have hstatus := hsame hended
    exact (hsame' (hstatus ▸ hended)).trans hstatus

end Runs

/-- The status of a run is monotone as long as no event names another terminal status, and the calls
append none as long as only one of them is about to end the run. -/
theorem status_monotone (state : OrchestrationState) (events : List OrchestrationEventEnvelope)
    (states : List OrchestrationState) :
    (state.status.isTerminal = true → reduceEvents state events = .ok states →
      ((∀ next ∈ states, next.status = state.status) ↔
        ¬ Overridden state.status state.lastEventSequence events)) ∧
    ∀ (x : Store) (w w' : Calls), StatusRun OneDecision (.start x) w →
      w.state.state.status.isTerminal = true → StatusRun OneDecision w w' →
      w'.state.state.status = w.state.state.status := by
  refine ⟨reduceEvents_status, ?_⟩
  intro x w w' h hended h'
  have hstart : Settled (.start x) :=
    ⟨fun p hp => (List.not_mem_nil hp).elim, fun _ p hp => (List.not_mem_nil hp).elim⟩
  exact ((hstart.run h).1.run h').2 hended

section Fixture

/-- A running orchestration whose only execution has succeeded. -/
def finishedStore : Store where
  plan := [⟨"a", 0, [], .all, .failFast, .continue, .parallel⟩]
  state := ⟨.running, false, 0, none, 0⟩
  events := []
  nodes := [⟨⟨"a", 0⟩, 0, .succeeded⟩]
  links := []
  outbox := []
  inbox := []
  consumptions := []
  lease := none
  agents := fun _ => none
  clock := 1
  nextId := 1

/-- A projection and a cancellation by two services. -/
def refreshAndCancel : List (Program Unit) :=
  [do let _ ← refreshRunProjection "left", do let _ ← cancel "right"]

theorem start_statusRun {C : Calls → Calls → Prop} {x : Store} {threads : List (Program Unit)}
    (hC : ∀ tr x ts p, C ⟨tr, x, ts⟩ ⟨tr, x, p :: ts⟩) (h : ∀ p ∈ threads, StatusCall p) :
    StatusRun C (.start x) ⟨[], x, threads⟩ := stepsWhen_spawn hC h

theorem follow_statusRun {schedule : List ℕ} {w w' : Calls}
    (h : follow (Stmt.unless fun _ _ => false) schedule w = some w') :
    StatusRun (fun _ _ => True) w w' :=
  follow_stepsWhen Stmt.unless_exec (fun _ _ _ _ _ _ _ _ _ => trivial) h

/-- The projection reads a running run, the cancellation ends it as cancelled, and the projection
ends it as succeeded. -/
theorem status_overridden :
    (∃ w w' : Calls, StatusRun (fun _ _ => True) (.start finishedStore) w ∧
      StatusRun (fun _ _ => True) w w' ∧ w.state.state.status = .cancelled ∧
      w'.state.state.status = .succeeded) ∧
    reduceEvents ⟨.cancelled, false, 1, none, 0⟩
        [⟨.fresh 1, 2, 1, .lifecycleChanged .succeeded⟩] =
      .ok [⟨.succeeded, false, 2, some (.fresh 1), 0⟩] := by
  refine ⟨?_, by decide⟩
  have hstart : StatusRun (fun _ _ => True) (.start finishedStore)
      ⟨[], finishedStore, refreshAndCancel⟩ := by
    refine start_statusRun (fun _ _ _ _ => trivial) ?_
    intro p hp
    rcases List.mem_pair.mp hp with rfl | rfl
    · exact .refresh "left"
    · exact .cancel "right"
  obtain ⟨w, hw, hstatus⟩ := Option.map_eq_some_iff.mp
    (show (follow (Stmt.unless fun _ _ => false) ([0, 0, 0] ++ List.replicate 19 1)
      ⟨[], finishedStore, refreshAndCancel⟩).map (·.state.state.status) = some .cancelled
      by decide +kernel)
  obtain ⟨w', hw', hstatus'⟩ := Option.map_eq_some_iff.mp
    (show ((follow (Stmt.unless fun _ _ => false) ([0, 0, 0] ++ List.replicate 19 1)
      ⟨[], finishedStore, refreshAndCancel⟩).bind
        (follow (Stmt.unless fun _ _ => false) (List.replicate 6 0))).map (·.state.state.status) =
      some .succeeded by decide +kernel)
  rw [hw] at hw'
  exact ⟨w, w', hstart.trans (follow_statusRun hw), follow_statusRun hw', hstatus, hstatus'⟩

/-- One call after the other: only one of them is there at a time. -/
theorem follow_alone_statusRun {schedule : List ℕ} {w w' : Calls}
    (h : follow (Stmt.unless fun _ _ => false) schedule w = some w') (hw : w.threads.length = 1) :
    StatusRun OneDecision w w' :=
  (follow_alone Stmt.unless_exec
    (fun _ _ _ _ _ _ _ _ _ _ _ => List.pairwise_singleton _ _) h hw).1

theorem spawn_statusRun {p : Program Unit} (hp : StatusCall p) (tr : List (Sigma Stmt.Ans)) (x : Store) :
    StatusRun OneDecision ⟨tr, x, []⟩ ⟨tr, x, [p]⟩ :=
  .single ⟨Step.spawn hp, fun _ _ h => absurd h List.ne_cons_self⟩

/-- The projection ends the run; the cancellation that comes after it reads that and leaves the status,
and so do the events of a node, of an earlier status and of the same one. -/
theorem status_monotone_late :
    (∃ w w' : Calls, StatusRun OneDecision (.start finishedStore) w ∧ StatusRun OneDecision w w' ∧
      w.state.state.status = .succeeded ∧ w'.trace = ⟨.readStatus, .succeeded⟩ :: w.trace ∧
      w'.state.state.status = .succeeded) ∧
    ∃ states, states.length = 3 ∧ reduceEvents ⟨.succeeded, false, 1, none, 0⟩
        [⟨.fresh 1, 2, 1, .nodeStatusChanged ⟨"a", 0⟩ .cancelled⟩,
          ⟨.fresh 2, 3, 1, .lifecycleChanged .cancelling⟩,
          ⟨.fresh 3, 5, 1, .lifecycleChanged .succeeded⟩] = .ok states ∧
      ∀ next ∈ states, next.status = .succeeded := by
  constructor
  · obtain ⟨⟨tr, x, threads⟩, hw, hends⟩ := Option.map_eq_some_iff.mp
      (show (follow (Stmt.unless fun _ _ => false) (List.replicate 9 0)
          ⟨[], finishedStore, [do let _ ← refreshRunProjection "left"]⟩).map
        (fun w : Calls => (w.threads.length, w.state.state.status)) = some (1, .succeeded)
        by decide +kernel)
    obtain ⟨hlength, hstatus⟩ := Prod.mk.inj hends
    obtain ⟨p, rfl⟩ := List.length_eq_one_iff.mp hlength
    have hrun : StatusRun OneDecision (.start finishedStore) ⟨tr, x, [p]⟩ :=
      (spawn_statusRun (.refresh "left") [] finishedStore).trans (follow_alone_statusRun hw rfl)
    have hdrop : StatusRun OneDecision ⟨tr, x, [p]⟩ ⟨tr, x, []⟩ :=
      .single ⟨Step.first_dropped, fun _ _ h => absurd h (List.ne_cons_self)⟩
    have hread : StatusRun OneDecision ⟨tr, x, [do let _ ← cancel "right"]⟩
        ⟨⟨.readStatus, .succeeded⟩ :: tr, x, [.ret ()]⟩ := by
      have hexec : Stmt.Exec .readStatus x .succeeded x := by
        rw [← show x.state.status = .succeeded from hstatus]
        rfl
      exact .single ⟨Step.first trivial hexec, fun _ _ _ _ => List.pairwise_singleton _ _⟩
    have hlater := (hdrop.trans (spawn_statusRun (.cancel "right") tr x)).trans hread
    exact ⟨_, _, hrun, hlater, hstatus, rfl,
      ((status_monotone x.state [] []).2 finishedStore _ _ hrun (by rw [hstatus]; rfl) hlater).trans
        hstatus⟩
  · have hstates : reduceEvents ⟨.succeeded, false, 1, none, 0⟩
        [⟨.fresh 1, 2, 1, .nodeStatusChanged ⟨"a", 0⟩ .cancelled⟩,
          ⟨.fresh 2, 3, 1, .lifecycleChanged .cancelling⟩,
          ⟨.fresh 3, 5, 1, .lifecycleChanged .succeeded⟩] =
        .ok [⟨.succeeded, false, 2, some (.fresh 1), 0⟩, ⟨.succeeded, false, 3, some (.fresh 2), 0⟩,
          ⟨.succeeded, true, 5, some (.fresh 3), 0⟩] := by
      decide
    refine ⟨_, rfl, hstates, ((status_monotone _ _ _).1 rfl hstates).mpr ?_⟩
    simp [Overridden, Overrides, OrchestrationRunStatus.isTerminal]

end Fixture

end VibeKanban.Orchestration
