import VibeKanban.Orchestration.Service

/-! What the transactions of the store leave behind when they commit. -/
namespace VibeKanban.Orchestration
open Lib

theorem committed_cases {α : Type} {x y : Store} {a : Except OrchestrationPersistenceError α}
    {result : Except OrchestrationPersistenceError (α × Store)} (h : (a, y) = committed x result) :
    (∃ error, result = .error error ∧ a = .error error ∧ y = x) ∨
      ∃ value, result = .ok (value, y) ∧ a = .ok value := by
  cases result with
  | error error =>
    cases h
    exact Or.inl ⟨error, rfl, rfl, rfl⟩
  | ok value =>
    obtain ⟨value, z⟩ := value
    cases h
    exact Or.inr ⟨value, rfl, rfl⟩

theorem acquire_cases {x y : Store} {owner : String} {now : ℕ} {acquired : Bool}
    (h : (acquired, y) = x.acquire owner now) : acquired = false ∧ y = x ∨ acquired = true ∧
      (∀ lease, x.lease = some lease → now < lease.expiresAt → lease.owner = owner) ∧
      y = { x with
        lease := some ⟨owner, (x.lease.map (·.fencingToken)).getD 0 + 1, now + leaseTtl⟩ } := by
  unfold Store.acquire at h
  split at h
  next hnone =>
    cases h
    refine Or.inr ⟨rfl, ?_, ?_⟩
    · intro lease hlease
      rw [hnone] at hlease
      cases hlease
    · rw [hnone]
      rfl
  next lease hsome =>
    split_ifs at h with htake
    · cases h
      refine Or.inr ⟨rfl, ?_, ?_⟩
      · intro other hother hlive
        rw [hsome] at hother
        cases hother
        simp only [Bool.or_eq_true, decide_eq_true_eq] at htake
        exact htake.resolve_left (by omega)
      · rw [hsome]
        rfl
    · cases h
      exact Or.inl ⟨rfl, rfl⟩

theorem enqueueOutbox_ok {x y : Store} {id : ℕ} {command : AgentRunPortCommandEnvelope}
    {row : ℕ × Bool} (h : x.enqueueOutbox id command = .ok (row, y)) :
    (∃ existing ∈ x.outbox, existing.command = command) ∧ y = x ∨
      (∀ old ∈ x.outbox, old.id ≠ id ∧ old.command.commandId ≠ command.commandId) ∧ y = { x with
        outbox := x.outbox ++ [⟨id, command, .pending, 0, x.clock, x.clock, x.clock, none⟩] } := by
  unfold Store.enqueueOutbox at h
  split_ifs at h with hvalid hnode hmatch
  unfold Store.insertOutbox at h
  split at h
  next existing hfound =>
    split_ifs at h with hsame
    cases h
    exact Or.inl ⟨⟨existing, List.mem_of_find?_eq_some hfound, hsame⟩, rfl⟩
  next =>
    split_ifs at h with hid
    cases h
    refine Or.inr ⟨?_, rfl⟩
    intro old hold
    have hfresh := fun hany => hid (List.any_eq_true.mpr ⟨old, hold, hany⟩)
    simp only [Bool.or_eq_true, decide_eq_true_eq] at hfresh
    exact ⟨fun h => hfresh (Or.inr h), fun h => hfresh (Or.inl h)⟩

theorem enqueueOutbox_node {x y : Store} {id : ℕ} {command : AgentRunPortCommandEnvelope}
    {row : ℕ × Bool} (h : x.enqueueOutbox id command = .ok (row, y)) :
    (x.node? command.node).isSome := by
  unfold Store.enqueueOutbox at h
  split_ifs at h with hvalid hnode hmatch
  simpa [Option.isSome_iff_ne_none] using hnode

theorem appendAndProject_ok {x y : Store} {event : OrchestrationEventEnvelope}
    {apply : OrchestrationReducerApply} (h : x.appendAndProject event = .ok (apply, y)) :
    (apply = .duplicate ∧ event ∈ x.events ∧ y = x) ∨
      ∃ state, reduceOrchestrationEvent x.state event = .ok (state, apply) ∧ y = { x with
        state := { state with lastEventSequence := event.sequence }
        events := event :: x.events } := by
  unfold Store.appendAndProject at h
  split at h
  next existing hfound =>
    split_ifs at h with hsame
    cases h
    exact Or.inl ⟨rfl, hsame ▸ List.mem_of_find?_eq_some hfound, rfl⟩
  next =>
    split at h
    next existing hfound =>
      split_ifs at h with hsame
      cases h
      exact Or.inl ⟨rfl, hsame ▸ List.mem_of_find?_eq_some hfound, rfl⟩
    next =>
      split at h
      next => cases h
      next state _ hreduce =>
        cases h
        exact Or.inr ⟨state, hreduce, rfl⟩

theorem recordConsumption_ok {x y : Store} {inboxId : ℕ} {join source : NodeExecutionId}
    {target : Option NodeExecutionId} {inserted : Bool}
    (h : x.recordConsumption inboxId join source target = .ok (inserted, y)) :
    ∃ row : Consumption, (row.join = join ∧ row.source = source ∧ row.target = target) ∧
      (inserted = false ∧ row ∈ x.consumptions ∧ y = x.markConsumed inboxId ∨
        inserted = true ∧
          y = { x with consumptions := x.consumptions ++ [row] }.markConsumed inboxId) := by
  unfold Store.recordConsumption at h
  split at h
  next => cases h
  next inbox _ =>
    split_ifs at h with hnode
    dsimp only at h
    split at h
    next existing hfound =>
      split_ifs at h with hsame
      cases h
      exact ⟨existing, hsame ▸ ⟨rfl, rfl, rfl⟩,
        Or.inl ⟨rfl, List.mem_of_find?_eq_some hfound, rfl⟩⟩
    next =>
      split_ifs at h with hrefs
      cases h
      exact ⟨_, ⟨rfl, rfl, rfl⟩, Or.inr ⟨rfl, rfl⟩⟩

theorem enqueueFollowUp_ok {x y : Store} {join : NodeExecutionId}
    {target : Option NodeExecutionId} {followUp : Option (ℕ × AgentRunPortCommandEnvelope)}
    (h : x.enqueueFollowUp join target followUp = .ok y) :
    ∃ outbox, y = { x with outbox := outbox } := by
  unfold Store.enqueueFollowUp at h
  split at h
  next =>
    cases h
    exact ⟨x.outbox, rfl⟩
  next =>
    split at h
    next => cases h
    next row z henqueue =>
      obtain ⟨outbox, rfl⟩ : ∃ outbox, z = { x with outbox := outbox } := by
        rcases enqueueOutbox_ok henqueue with ⟨_, rfl⟩ | ⟨_, rfl⟩
        · exact ⟨z.outbox, rfl⟩
        · exact ⟨_, rfl⟩
      split_ifs at h with hserial
      · cases h
        exact ⟨_, rfl⟩
      · cases h
        exact ⟨outbox, rfl⟩

theorem consumeWithEffects_cases {x y : Store} {inboxId : ℕ} {join source : NodeExecutionId}
    {target : Option NodeExecutionId} {event : OrchestrationEventEnvelope}
    {followUp : Option (ℕ × AgentRunPortCommandEnvelope)} {inserted : Bool}
    (h : x.consumeWithEffects inboxId join source target event followUp = .ok (inserted, y)) :
    inserted = false ∧ x.recordConsumption inboxId join source target = .ok (false, y) ∨
      inserted = true ∧ ∃ x₁ x₂ apply,
        x.recordConsumption inboxId join source target = .ok (true, x₁) ∧
        x₁.appendAndProject event = .ok (apply, x₂) ∧
        x₂.enqueueFollowUp join target followUp = .ok y := by
  unfold Store.consumeWithEffects at h
  split_ifs at h with hrun
  split at h
  next => cases h
  next x₁ hrecord =>
    cases h
    exact Or.inl ⟨rfl, hrecord⟩
  next x₁ hrecord =>
    split at h
    next => cases h
    next apply x₂ happend =>
      split at h
      next => cases h
      next w hfollow =>
        cases h
        exact Or.inr ⟨rfl, x₁, x₂, apply, hrecord, happend, hfollow⟩

theorem consumeWithEffects_nodes {x y : Store} {inboxId : ℕ} {join source : NodeExecutionId}
    {target : Option NodeExecutionId} {event : OrchestrationEventEnvelope}
    {followUp : Option (ℕ × AgentRunPortCommandEnvelope)} {inserted : Bool}
    (h : x.consumeWithEffects inboxId join source target event followUp = .ok (inserted, y)) :
    y.nodes = x.nodes := by
  have hrecord : ∀ {inserted z}, x.recordConsumption inboxId join source target =
      .ok (inserted, z) → z.nodes = x.nodes := by
    intro inserted z hok
    obtain ⟨row, _, ⟨_, _, rfl⟩ | ⟨_, rfl⟩⟩ := recordConsumption_ok hok
    · rfl
    · rfl
  rcases consumeWithEffects_cases h with ⟨_, hok⟩ | ⟨_, x₁, x₂, apply, hok, happend, hfollow⟩
  · exact hrecord hok
  · have happended : x₂.nodes = x₁.nodes := by
      rcases appendAndProject_ok happend with ⟨_, _, rfl⟩ | ⟨state, _, rfl⟩
      · rfl
      · rfl
    obtain ⟨outbox, rfl⟩ := enqueueFollowUp_ok hfollow
    exact happended.trans (hrecord hok)

/-- Nothing is promoted, or the head of the queue while no target is active. -/
theorem promoteNextSerial_ok {x y : Store} {join : NodeExecutionId} {now : ℕ}
    {promoted : Option SerialEachQueueRow} (h : x.promoteNextSerial join now = .ok (promoted, y)) :
    promoted = none ∧ y = x ∨ ∃ next, promoted = some next ∧ x.activeTarget join = false ∧
      firstRow SerialEachQueueRow.before (x.serialQueue join) = some next ∧
      y = x.promote next.target now := by
  unfold Store.promoteNextSerial at h
  split_ifs at h with hjoin hidle
  · cases h
    exact Or.inl ⟨rfl, rfl⟩
  · simp only [Bool.or_eq_true, not_or, Bool.not_eq_true] at hidle
    split at h
    next =>
      cases h
      exact Or.inl ⟨rfl, rfl⟩
    next next hnext =>
      split_ifs at h with hpending
      · cases h
        exact Or.inr ⟨next, rfl, hidle.2, hnext, rfl⟩
      · cases h
        exact Or.inl ⟨rfl, rfl⟩

section Log

/-- The lease and the log of the run are the same. -/
structure SameLog (x y : Store) : Prop where
  lease : y.lease = x.lease
  state : y.state = x.state
  events : y.events = x.events

theorem recordConsumption_log {x y : Store} {inboxId : ℕ} {join source : NodeExecutionId}
    {target : Option NodeExecutionId} {inserted : Bool}
    (h : x.recordConsumption inboxId join source target = .ok (inserted, y)) : SameLog x y := by
  obtain ⟨row, _, ⟨_, _, rfl⟩ | ⟨_, rfl⟩⟩ := recordConsumption_ok h
  · exact ⟨rfl, rfl, rfl⟩
  · exact ⟨rfl, rfl, rfl⟩

theorem enqueueOutbox_log {x y : Store} {id : ℕ} {command : AgentRunPortCommandEnvelope}
    {row : ℕ × Bool} (h : x.enqueueOutbox id command = .ok (row, y)) : SameLog x y := by
  rcases enqueueOutbox_ok h with ⟨_, rfl⟩ | ⟨_, rfl⟩
  · exact ⟨rfl, rfl, rfl⟩
  · exact ⟨rfl, rfl, rfl⟩

theorem enqueueFollowUp_log {x y : Store} {join : NodeExecutionId}
    {target : Option NodeExecutionId} {followUp : Option (ℕ × AgentRunPortCommandEnvelope)}
    (h : x.enqueueFollowUp join target followUp = .ok y) : SameLog x y := by
  obtain ⟨outbox, rfl⟩ := enqueueFollowUp_ok h
  exact ⟨rfl, rfl, rfl⟩

theorem consumeWithEffects_log {x y : Store} {inboxId : ℕ} {join source : NodeExecutionId}
    {target : Option NodeExecutionId} {event : OrchestrationEventEnvelope}
    {followUp : Option (ℕ × AgentRunPortCommandEnvelope)} {inserted : Bool}
    (h : x.consumeWithEffects inboxId join source target event followUp = .ok (inserted, y)) :
    inserted = false ∧ SameLog x y ∨ inserted = true ∧ ∃ x₁ x₂ apply, SameLog x x₁ ∧
      x₁.appendAndProject event = .ok (apply, x₂) ∧ SameLog x₂ y := by
  rcases consumeWithEffects_cases h with ⟨rfl, hrecord⟩ | ⟨rfl, x₁, x₂, apply, hrecord, happend, hfollow⟩
  · exact Or.inl ⟨rfl, recordConsumption_log hrecord⟩
  · exact Or.inr ⟨rfl, x₁, x₂, apply, recordConsumption_log hrecord, happend,
      enqueueFollowUp_log hfollow⟩

theorem insertLink_log {x y : Store} {link : AgentRunLink} {a : Unit}
    (h : x.insertLink link = .ok (a, y)) : SameLog x y ∧ y.outbox = x.outbox := by
  unfold Store.insertLink at h
  split_ifs at h
  · cases h
    exact ⟨⟨rfl, rfl, rfl⟩, rfl⟩
  · cases h
    exact ⟨⟨rfl, rfl, rfl⟩, rfl⟩

theorem promoteNextSerial_log {x y : Store} {join : NodeExecutionId} {now : ℕ}
    {promoted : Option SerialEachQueueRow} (h : x.promoteNextSerial join now = .ok (promoted, y)) :
    SameLog x y := by
  rcases promoteNextSerial_ok h with ⟨_, rfl⟩ | ⟨_, _, _, _, rfl⟩
  · exact ⟨rfl, rfl, rfl⟩
  · exact ⟨rfl, rfl, rfl⟩

/-- The event a statement appends. -/
def Stmt.event? : Stmt → Option OrchestrationEventEnvelope
  | .append event => some event
  | .consume _ _ _ _ event _ => some event
  | _ => none

/-- The log changes only when an event is appended. -/
theorem exec_log {s : Stmt} {x y : Store} {a : s.Ans} (h : s.Exec x a y) :
    (y.state = x.state ∧ y.events = x.events) ∨ ∃ event, s.event? = some event ∧
      ∃ x₁ x₂ apply, SameLog x x₁ ∧ x₁.appendAndProject event = .ok (apply, x₂) ∧ SameLog x₂ y := by
  have hcommitted : ∀ {α : Type} {a : Except OrchestrationPersistenceError α}
      {result : Except OrchestrationPersistenceError (α × Store)}, (a, y) = committed x result →
      (∀ value, result = .ok (value, y) → y.state = x.state ∧ y.events = x.events) →
      y.state = x.state ∧ y.events = x.events := by
    intro α a result h hok
    rcases committed_cases h with ⟨_, _, _, rfl⟩ | ⟨value, hvalue, _⟩
    · exact ⟨rfl, rfl⟩
    · exact hok value hvalue
  cases s with
  | append event =>
    rcases committed_cases h with ⟨_, _, _, rfl⟩ | ⟨apply, hok, _⟩
    · exact Or.inl ⟨rfl, rfl⟩
    · exact Or.inr ⟨event, rfl, x, y, apply, ⟨rfl, rfl, rfl⟩, hok, ⟨rfl, rfl, rfl⟩⟩
  | consume inboxId join source target event followUp =>
    rcases committed_cases h with ⟨_, _, _, rfl⟩ | ⟨inserted, hok, _⟩
    · exact Or.inl ⟨rfl, rfl⟩
    · rcases consumeWithEffects_log hok with ⟨_, hsame⟩ | ⟨_, x₁, x₂, apply, hbefore, happend, hafter⟩
      · exact Or.inl ⟨hsame.state, hsame.events⟩
      · exact Or.inr ⟨event, rfl, x₁, x₂, apply, hbefore, happend, hafter⟩
  | insertLink link =>
    exact Or.inl (hcommitted h fun _ hok => ⟨(insertLink_log hok).1.state, (insertLink_log hok).1.events⟩)
  | enqueue id command =>
    exact Or.inl (hcommitted h fun _ hok =>
      ⟨(enqueueOutbox_log hok).state, (enqueueOutbox_log hok).events⟩)
  | promote join time =>
    exact Or.inl (hcommitted h fun _ hok =>
      ⟨(promoteNextSerial_log hok).state, (promoteNextSerial_log hok).events⟩)
  | claimOutbox time after =>
    left
    cases a with
    | none =>
      obtain ⟨_, rfl⟩ := h
      exact ⟨rfl, rfl⟩
    | some claimed =>
      obtain ⟨row, _, _, _, _, rfl⟩ := h
      exact ⟨rfl, rfl⟩
  | create command =>
    left
    cases a with
    | error error =>
      obtain rfl : y = x := h
      exact ⟨rfl, rfl⟩
    | ok run =>
      have hy : y = if (x.agents run).isSome then x else x.setAgent run .pending := h
      split_ifs at hy
      · exact ⟨by rw [hy], by rw [hy]⟩
      · exact ⟨by rw [hy]; rfl, by rw [hy]; rfl⟩
  | control command =>
    left
    simp only [Stmt.Exec] at h
    split at h
    · obtain ⟨status, rfl⟩ := h
      exact ⟨rfl, rfl⟩
    · exact ⟨by rw [h], by rw [h]⟩
  | query run =>
    obtain ⟨_, rfl⟩ := h
    exact Or.inl ⟨rfl, rfl⟩
  | acquire owner time =>
    left
    rcases acquire_cases h with ⟨_, rfl⟩ | ⟨_, _, rfl⟩
    · exact ⟨rfl, rfl⟩
    · exact ⟨rfl, rfl⟩
  | release owner =>
    cases h
    left
    show (x.release owner).2.state = x.state ∧ (x.release owner).2.events = x.events
    unfold Store.release
    split_ifs
    · exact ⟨rfl, rfl⟩
    · exact ⟨rfl, rfl⟩
  | claimInbox =>
    left
    have hy : y = x.claimInbox.2 := congrArg Prod.snd h
    unfold Store.claimInbox at hy
    split at hy
    · exact ⟨by rw [hy], by rw [hy]⟩
    · exact ⟨by rw [hy]; rfl, by rw [hy]; rfl⟩
  | persistNode id stableOrder =>
    cases h
    left
    show (x.persistNode id stableOrder).state = x.state ∧
      (x.persistNode id stableOrder).events = x.events
    unfold Store.persistNode
    split_ifs
    · exact ⟨rfl, rfl⟩
    · exact ⟨rfl, rfl⟩
  | _ =>
    cases h
    exact Or.inl ⟨rfl, rfl⟩

end Log

end VibeKanban.Orchestration
