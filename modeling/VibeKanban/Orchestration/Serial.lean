import VibeKanban.Orchestration.Effects

/-! The queue of a serial Each join: one target is active at a time, and the commands of the targets
that wait are out of sight of the dispatchers. -/
namespace VibeKanban.Orchestration
open Lib

/-- A status may change to a terminal one, and an active one to another active one. -/
def OrchestrationNodeStatus.Moves (status next : OrchestrationNodeStatus) : Prop :=
  next = status ∨ isTerminalNode next = true ∨ status.isActive = true ∧ next.isActive = true

/-- What happens around the queue: executions move, and anything but the plan, the executions, the
outbox and the consumptions may change. -/
structure Transition (x y : Store) : Prop where
  nodes : List.Forall₂ (fun row row' => row'.id = row.id ∧ row.status.Moves row'.status)
    x.nodes y.nodes
  plan : y.plan = x.plan
  outbox : y.outbox = x.outbox
  consumptions : y.consumptions = x.consumptions

/-- One transaction, and the target it promoted. The targets of a join are executions of its node. -/
inductive SerialStep : Store → Option NodeExecutionId → Store → Prop where
  | consume {x y inboxId key source target event followUp inserted} :
    (∀ id, target = some id → id.nodeKey = key) →
    x.consumeWithEffects inboxId ⟨key, 0⟩ source target event followUp = .ok (inserted, y) →
    SerialStep x none y
  | promote {x y key now promoted} : x.promoteNextSerial ⟨key, 0⟩ now = .ok (promoted, y) →
    SerialStep x (promoted.map (·.target)) y
  | claim {x y now after} {claimed : Option OutboxRow} : now < never →
    (Stmt.claimOutbox now after).Exec x claimed y → SerialStep x none y
  | delivered {x} (id now : ℕ) : SerialStep x none ((Stmt.markDelivered id now).step x).2
  | failed {x} (id : ℕ) (error : AgentRunPortError) (availableAt now : ℕ) :
    SerialStep x none ((Stmt.markFailed id error availableAt now).step x).2
  | persist {x} (id : NodeExecutionId) (stableOrder : ℕ) :
    SerialStep x none (x.persistNode id stableOrder)
  | transition {x y} : Transition x y → SerialStep x none y

/-- Any number of transactions, and the targets they promoted, newest first. -/
inductive SerialRun (x : Store) : List NodeExecutionId → Store → Prop where
  | start : SerialRun x [] x
  | step {promoted y target z} : SerialRun x promoted y → SerialStep y target z →
    SerialRun x (target.toList ++ promoted) z

/-- A run that was just started. -/
structure Store.Fresh (x : Store) : Prop where
  ids : (x.nodes.map (·.id)).Nodup
  pending : ∀ row ∈ x.nodes, row.status = .pending
  outbox : x.outbox = []
  consumptions : x.consumptions = []

/-- The execution belongs to a serial Each join. -/
def Store.serialTarget (x : Store) (id : NodeExecutionId) : Bool := x.serialEach ⟨id.nodeKey, 0⟩

/-- The invariant of the queue. -/
structure Serial (x : Store) : Prop where
  ids : (x.nodes.map (·.id)).Nodup
  outboxIds : (x.outbox.map (·.id)).Nodup
  keys : ∀ row ∈ x.consumptions, ∀ id, row.target = some id → row.join = ⟨id.nodeKey, 0⟩
  active : ∀ row ∈ x.nodes, row.status.isActive = true → x.serialTarget row.id = true →
    ∃ c ∈ x.consumptions, c.target = some row.id
  single : ∀ row ∈ x.nodes, ∀ row' ∈ x.nodes, row.status.isActive = true →
    row'.status.isActive = true → row.id.nodeKey = row'.id.nodeKey →
    x.serialTarget row.id = true → row.id = row'.id
  found : ∀ command ∈ x.outbox, ∃ row ∈ x.nodes, row.id = command.command.node
  hidden : ∀ command ∈ x.outbox, ∀ row ∈ x.nodes, row.id = command.command.node →
    row.status = .pending → x.serialTarget row.id = true →
    command.status = .pending ∧ command.availableAt = never

section Invariant
variable {x y : Store}

theorem node?_of_mem (h : (x.nodes.map (·.id)).Nodup) {row : NodeExecution} (hrow : row ∈ x.nodes) :
    x.node? row.id = some row := by
  refine find_unique hrow (by simp) ?_
  intro other hother hid
  exact List.inj_on_of_nodup_map h hother hrow (by simpa using hid)

theorem serialTarget_of_plan (h : y.plan = x.plan) (id : NodeExecutionId) :
    y.serialTarget id = x.serialTarget id := by
  unfold Store.serialTarget Store.serialEach
  rw [h]

theorem Serial.outbox (h : Serial x) (hnodes : y.nodes = x.nodes) (hplan : y.plan = x.plan)
    (hconsumptions : y.consumptions = x.consumptions) (hids : (y.outbox.map (·.id)).Nodup)
    (hfound : ∀ command ∈ y.outbox, ∃ row ∈ x.nodes, row.id = command.command.node)
    (hhidden : ∀ command ∈ y.outbox, ∀ row ∈ x.nodes, row.id = command.command.node →
      row.status = .pending → x.serialTarget row.id = true →
      command.status = .pending ∧ command.availableAt = never) : Serial y := by
  constructor
  · rw [hnodes]
    exact h.ids
  · exact hids
  · rw [hconsumptions]
    exact h.keys
  · rw [hnodes, hconsumptions]
    intro row hrow hactive hserial
    exact h.active row hrow hactive (serialTarget_of_plan hplan _ ▸ hserial)
  · rw [hnodes]
    intro row hrow row' hrow' hactive hactive' hkey hserial
    exact h.single row hrow row' hrow' hactive hactive' hkey (serialTarget_of_plan hplan _ ▸ hserial)
  · rw [hnodes]
    exact hfound
  · rw [hnodes]
    intro command hcommand row hrow hid hpending hserial
    exact hhidden command hcommand row hrow hid hpending (serialTarget_of_plan hplan _ ▸ hserial)

theorem Serial.setOutbox (h : Serial x) {when : OutboxRow → Bool} {change : OutboxRow → OutboxRow}
    (hid : ∀ row, (change row).id = row.id)
    (hcommand : ∀ row, (change row).command = row.command)
    (hwhen : ∀ command ∈ x.outbox, when command = true → command.status = .pending →
      command.availableAt = never → (change command).status = .pending ∧
        (change command).availableAt = never) : Serial (x.setOutbox when change) := by
  refine h.outbox rfl rfl rfl ?_ ?_ ?_
  · show ((updateWhere when change x.outbox).map (·.id)).Nodup
    rw [map_updateWhere hid]
    exact h.outboxIds
  · intro command hmem
    rcases mem_updateWhere.mp hmem with ⟨old, hold, _, rfl⟩ | ⟨hold, _⟩
    · rw [hcommand]
      exact h.found old hold
    · exact h.found command hold
  · intro command hmem row hrow hnode hpending hserial
    rcases mem_updateWhere.mp hmem with ⟨old, hold, hold', rfl⟩ | ⟨hold, _⟩
    · rw [hcommand] at hnode
      obtain ⟨hstatus, htime⟩ := h.hidden old hold row hrow hnode hpending hserial
      exact hwhen old hold hold' hstatus htime
    · exact h.hidden command hold row hrow hnode hpending hserial

theorem Serial.reclaim (h : Serial x) (now after : ℕ) : Serial (x.reclaimDeliveries now after) := by
  refine h.setOutbox (fun _ => rfl) (fun _ => rfl) ?_
  intro command _ hwhen hpending
  simp [hpending] at hwhen

theorem Serial.claim {now after : ℕ} {claimed : Option OutboxRow} (h : Serial x)
    (hnow : now < never) (hexec : (Stmt.claimOutbox now after).Exec x claimed y) : Serial y := by
  have hreclaimed := h.reclaim now after
  cases claimed with
  | none =>
    obtain ⟨_, rfl⟩ := hexec
    exact hreclaimed
  | some claimed =>
    obtain ⟨row, hrow, hclaimable, _, _, rfl⟩ := hexec
    refine hreclaimed.setOutbox (fun _ => rfl) (fun _ => rfl) ?_
    intro command hcommand hid _ htime
    obtain rfl : command = row :=
      List.inj_on_of_nodup_map hreclaimed.outboxIds hcommand hrow (by simpa using hid)
    have havailable : command.availableAt ≤ now := by
      simp only [OutboxRow.claimable, Bool.and_eq_true, decide_eq_true_eq] at hclaimable
      exact hclaimable.2
    omega

/-- A command that is queued behind a consumption for an execution of its join. -/
theorem Serial.followUp {key : String} {target : Option NodeExecutionId}
    {followUp : Option (ℕ × AgentRunPortCommandEnvelope)} (h : Serial x)
    (hkey : ∀ id, target = some id → id.nodeKey = key)
    (hnode : ∀ id command, followUp = some (id, command) → target = some command.node)
    (hexec : x.enqueueFollowUp ⟨key, 0⟩ target followUp = .ok y) : Serial y := by
  unfold Store.enqueueFollowUp at hexec
  split at hexec
  next =>
    cases hexec
    exact h
  next outboxId command =>
    have htarget := hnode outboxId command rfl
    split at hexec
    next => cases hexec
    next result z henqueue =>
      rcases enqueueOutbox_ok henqueue with ⟨_, rfl⟩ | ⟨hfresh, rfl⟩
      -- the command was queued before: it is as hidden as it was
      · split_ifs at hexec with hserial
        · cases hexec
          exact h.setOutbox (fun _ => rfl) (fun _ => rfl) fun _ _ _ hpending _ => ⟨hpending, rfl⟩
        · cases hexec
          exact h
      · have hids : ((x.outbox ++ [(⟨outboxId, command, .pending, 0, x.clock, x.clock, x.clock,
            none⟩ : OutboxRow)]).map (·.id)).Nodup := by
          rw [List.map_append, List.nodup_append']
          refine ⟨h.outboxIds, List.nodup_singleton _, ?_⟩
          intro id hid hid'
          obtain ⟨old, hold, rfl⟩ := List.mem_map.mp hid
          obtain rfl := List.mem_singleton.mp hid'
          exact (hfresh old hold).1 rfl
        have hfound : ∀ row ∈ x.outbox ++ [(⟨outboxId, command, .pending, 0, x.clock, x.clock,
            x.clock, none⟩ : OutboxRow)], ∃ node ∈ x.nodes, node.id = row.command.node := by
          intro row hrow
          rcases List.mem_append.mp hrow with hold | hnew
          · exact h.found row hold
          · obtain rfl := List.mem_singleton.mp hnew
            obtain ⟨node, hnode⟩ := Option.isSome_iff_exists.mp (enqueueOutbox_node henqueue)
            exact ⟨node, List.mem_of_find?_eq_some hnode, by simpa using List.find?_some hnode⟩
        split_ifs at hexec with hserial
        · cases hexec
          refine h.outbox rfl rfl rfl ?_ ?_ ?_
          · have hsame := @map_updateWhere OutboxRow ℕ (·.id)
              (fun row => decide (row.id = outboxId) && decide (row.status = .pending))
              (fun row => { row with availableAt := never }) (fun _ => rfl)
            exact (hsame _).symm ▸ hids
          · intro row hrow
            rcases mem_updateWhere.mp hrow with ⟨old, hold, _, rfl⟩ | ⟨hold, _⟩
            · exact hfound old hold
            · exact hfound row hold
          · intro row hrow node hnode hid hpending hserialTarget
            rcases mem_updateWhere.mp hrow with ⟨old, hold, hwhen, rfl⟩ | ⟨hold, hwhen⟩
            · simp only [Bool.and_eq_true, decide_eq_true_eq] at hwhen
              exact ⟨hwhen.2, rfl⟩
            · rcases List.mem_append.mp hold with hold | hnew
              · exact h.hidden row hold node hnode hid hpending hserialTarget
              · obtain rfl := List.mem_singleton.mp hnew
                simp at hwhen
        · cases hexec
          refine h.outbox rfl rfl rfl hids hfound ?_
          intro row hrow node hnodemem hid hpending hserialTarget
          rcases List.mem_append.mp hrow with hold | hnew
          · exact h.hidden row hold node hnodemem hid hpending hserialTarget
          · obtain rfl := List.mem_singleton.mp hnew
            exfalso
            apply hserial
            have hfound := node?_of_mem h.ids hnodemem
            rw [hid] at hfound
            have hjoin : x.serialEach ⟨key, 0⟩ = true := by
              rw [← hkey _ htarget, ← hid]
              exact hserialTarget
            rw [Bool.and_eq_true, htarget]
            refine ⟨hjoin, ?_⟩
            show Option.any _ (x.node? command.node) = true
            rw [hfound]
            simpa using hpending

theorem Serial.consume {inboxId : ℕ} {key : String} {source : NodeExecutionId}
    {target : Option NodeExecutionId} {event : OrchestrationEventEnvelope}
    {followUp : Option (ℕ × AgentRunPortCommandEnvelope)} {inserted : Bool} (h : Serial x)
    (hkey : ∀ id, target = some id → id.nodeKey = key)
    (hexec : x.consumeWithEffects inboxId ⟨key, 0⟩ source target event followUp =
      .ok (inserted, y)) : Serial y := by
  have hnode : ∀ id command, followUp = some (id, command) → target = some command.node := by
    rintro id command rfl
    unfold Store.consumeWithEffects at hexec
    split_ifs at hexec with hmismatch
    have hsame : some command.node = target := by simpa using hmismatch
    exact hsame.symm
  rcases consumeWithEffects_cases hexec with ⟨_, hrecord⟩ | ⟨_, x₁, x₂, apply, hrecord, happend, hfollow⟩
  · obtain ⟨row, _, ⟨_, _, rfl⟩ | ⟨hfalse, _⟩⟩ := recordConsumption_ok hrecord
    · exact h.outbox rfl rfl rfl h.outboxIds h.found h.hidden
    · cases hfalse
  · obtain ⟨row, ⟨hjoin, _, htarget⟩, ⟨hfalse, _⟩ | ⟨_, rfl⟩⟩ := recordConsumption_ok hrecord
    · cases hfalse
    · have hrecorded : Serial ({ x with consumptions := x.consumptions ++ [row] }.markConsumed
          inboxId) := by
        refine ⟨h.ids, h.outboxIds, ?_, ?_, h.single, h.found, h.hidden⟩
        · intro other hother id hid
          rcases List.mem_append.mp hother with hother | hother
          · exact h.keys other hother id hid
          · obtain rfl := List.mem_singleton.mp hother
            rw [hjoin, hkey id (htarget.symm.trans hid)]
        · intro node hnode hactive hserial
          obtain ⟨c, hc, hctarget⟩ := h.active node hnode hactive hserial
          exact ⟨c, List.mem_append_left _ hc, hctarget⟩
      have happended : Serial x₂ := by
        rcases appendAndProject_ok happend with ⟨_, _, rfl⟩ | ⟨state, _, rfl⟩
        · exact hrecorded
        · exact hrecorded.outbox rfl rfl rfl hrecorded.outboxIds hrecorded.found
            hrecorded.hidden
      exact happended.followUp hkey hnode hfollow

/-- The head of the queue is the pending target of a consumption of the join. -/
theorem serialQueue_target {join : NodeExecutionId} {next : SerialEachQueueRow}
    (h : next ∈ x.serialQueue join) : next.consumption ∈ x.consumptions ∧
      next.consumption.join = join ∧ next.consumption.target = some next.target ∧
      (x.node? next.target).any (·.status = .pending) = true := by
  obtain ⟨row, hrow, hnext⟩ := List.mem_flatMap.mp h
  obtain ⟨hmem, hjoin⟩ := List.mem_filter.mp hrow
  split at hnext
  next => cases hnext
  next id htarget =>
    split_ifs at hnext with hpending
    · obtain ⟨inbox, _, rfl⟩ := List.mem_map.mp hnext
      exact ⟨hmem, by simpa using hjoin, htarget, hpending⟩
    · cases hnext

theorem SerialEachQueueRow.before_total (a b : SerialEachQueueRow) :
    a.before b = true ∨ b.before a = true := by
  simp only [SerialEachQueueRow.before, Bool.or_eq_true, Bool.and_eq_true, decide_eq_true_eq]
  omega

theorem SerialEachQueueRow.before_trans (a b c : SerialEachQueueRow) (hab : a.before b = true)
    (hbc : b.before c = true) : a.before c = true := by
  simp only [SerialEachQueueRow.before, Bool.or_eq_true, Bool.and_eq_true,
    decide_eq_true_eq] at hab hbc ⊢
  omega

/-- The row that is promoted is the least one of the queue. -/
theorem promoteNextSerial_least {join : NodeExecutionId} {now : ℕ} {next : SerialEachQueueRow}
    (h : x.promoteNextSerial join now = .ok (some next, y)) :
    next ∈ x.serialQueue join ∧ ∀ other ∈ x.serialQueue join, next.before other = true := by
  rcases promoteNextSerial_ok h with ⟨hnone, _⟩ | ⟨_, heq, _, hfirst, _⟩
  · cases hnone
  · cases heq
    exact firstRow_eq_some SerialEachQueueRow.before_total SerialEachQueueRow.before_trans hfirst

theorem Serial.promote {key : String} {now : ℕ} {promoted : Option SerialEachQueueRow} (h : Serial x)
    (hexec : x.promoteNextSerial ⟨key, 0⟩ now = .ok (promoted, y)) : Serial y := by
  rcases promoteNextSerial_ok hexec with ⟨_, rfl⟩ | ⟨next, rfl, hidle, _, rfl⟩
  · exact h
  · obtain ⟨hmem, hjoin, htarget, _⟩ := serialQueue_target (promoteNextSerial_least hexec).1
    have hkey : next.target.nodeKey = key := by
      have hkeys := h.keys _ hmem _ htarget
      rw [hjoin] at hkeys
      exact (NodeExecutionId.mk.inj hkeys).1.symm
    -- the promoted target is the only active execution of its node
    have hnone : ∀ row ∈ x.nodes, row.status.isActive = true → row.id.nodeKey = key →
        x.serialTarget row.id = true → False := by
      intro row hrow hactive hrowKey hserial
      obtain ⟨c, hc, hctarget⟩ := h.active row hrow hactive hserial
      have hcjoin := h.keys c hc _ hctarget
      rw [hrowKey] at hcjoin
      have hbusy : x.activeTarget ⟨key, 0⟩ = true := by
        refine List.any_eq_true.mpr ⟨c, hc, ?_⟩
        rw [hcjoin, hctarget, Option.any_some, node?_of_mem h.ids hrow]
        simpa using hactive
      rw [hidle] at hbusy
      cases hbusy
    have hnodes : ∀ row ∈ (x.promote next.target now).nodes, ∃ old ∈ x.nodes, old.id = row.id ∧
        (row = old ∨ row.id = next.target ∧ row.status = .ready) := by
      intro row hrow
      rcases mem_updateWhere.mp hrow with ⟨old, hold, hwhen, rfl⟩ | ⟨hold, _⟩
      · simp only [Bool.and_eq_true, decide_eq_true_eq] at hwhen
        exact ⟨old, hold, rfl, Or.inr ⟨hwhen.1, rfl⟩⟩
      · exact ⟨row, hold, rfl, Or.inl rfl⟩
    have hactive : ∀ row ∈ (x.promote next.target now).nodes, row.status.isActive = true →
        row.id.nodeKey = key → x.serialTarget row.id = true → row.id = next.target := by
      intro row hrow hrowActive hrowKey hserial
      obtain ⟨old, hold, hid, rfl | ⟨hrowId, _⟩⟩ := hnodes row hrow
      · exact (hnone row hold hrowActive hrowKey hserial).elim
      · exact hrowId
    have hids := @map_updateWhere NodeExecution NodeExecutionId (·.id)
      (fun row => decide (row.id = next.target) && decide (row.status = .pending))
      (fun row => { row with status := .ready }) (fun _ => rfl) x.nodes
    have houtboxIds := @map_updateWhere OutboxRow ℕ (·.id)
      (fun row => decide (row.command.node = next.target) &&
        (decide (row.status = .pending) || decide (row.status = .failed)))
      (fun row => { row with availableAt := now }) (fun _ => rfl) x.outbox
    constructor
    · exact hids.symm ▸ h.ids
    · exact houtboxIds.symm ▸ h.outboxIds
    · exact h.keys
    · intro row hrow hrowActive hserial
      obtain ⟨old, hold, _, rfl | ⟨hrowId, _⟩⟩ := hnodes row hrow
      · exact h.active row hold hrowActive hserial
      · exact ⟨next.consumption, hmem, hrowId ▸ htarget⟩
    · intro row hrow row' hrow' hrowActive hrowActive' hsame hserial
      have hserial' : x.serialTarget row'.id = true := by
        unfold Store.serialTarget at hserial ⊢
        rwa [← hsame]
      by_cases hown : row.id.nodeKey = key
      · rw [hactive row hrow hrowActive hown hserial,
          hactive row' hrow' hrowActive' (hsame ▸ hown) hserial']
      · obtain ⟨old, hold, _, rfl | ⟨hrowId, _⟩⟩ := hnodes row hrow
        · obtain ⟨old', hold', _, rfl | ⟨hrowId', _⟩⟩ := hnodes row' hrow'
          · exact h.single row hold row' hold' hrowActive hrowActive' hsame hserial
          · exact absurd (hsame.trans (hrowId' ▸ hkey)) hown
        · exact absurd (hrowId ▸ hkey) hown
    · intro command hcommand
      obtain ⟨old, hold, hnode⟩ : ∃ old ∈ x.nodes, old.id = command.command.node := by
        rcases mem_updateWhere.mp hcommand with ⟨oldCommand, hmem, _, rfl⟩ | ⟨hmem, _⟩
        · exact h.found oldCommand hmem
        · exact h.found command hmem
      obtain ⟨row, hrow, hid⟩ := List.mem_map.mp (hids.symm ▸ List.mem_map_of_mem hold)
      exact ⟨row, hrow, hid.trans hnode⟩
    · intro command hcommand row hrow hid hpending hserial
      obtain ⟨old, hold, _, rfl | ⟨_, hready⟩⟩ := hnodes row hrow
      · have hother : row.id ≠ next.target := by
          intro hrowId
          rcases mem_updateWhere.mp hrow with ⟨_, _, _, hnew⟩ | ⟨_, hwhen⟩
          · rw [hnew] at hpending
            cases hpending
          · simp [hrowId, hpending] at hwhen
        rcases mem_updateWhere.mp hcommand with ⟨oldCommand, _, hwhen, rfl⟩ | ⟨holdCommand, _⟩
        · simp only [Bool.and_eq_true, decide_eq_true_eq] at hwhen
          exact absurd (hid.trans hwhen.1) hother
        · exact h.hidden command holdCommand row hold hid hpending hserial
      · rw [hready] at hpending
        cases hpending

theorem Serial.persist (h : Serial x) (id : NodeExecutionId) (stableOrder : ℕ) :
    Serial (x.persistNode id stableOrder) := by
  unfold Store.persistNode
  split_ifs with hfound
  · exact h
  · have hfresh : ∀ row ∈ x.nodes, row.id ≠ id := by
      intro row hrow hid
      apply hfound
      rw [← hid, node?_of_mem h.ids hrow]
      rfl
    constructor
    · show ((x.nodes ++ [(⟨id, stableOrder, .pending⟩ : NodeExecution)]).map (·.id)).Nodup
      rw [List.map_append, List.nodup_append']
      refine ⟨h.ids, List.nodup_singleton _, ?_⟩
      intro other hother hother'
      obtain ⟨row, hrow, rfl⟩ := List.mem_map.mp hother
      exact hfresh row hrow (List.mem_singleton.mp hother')
    · exact h.outboxIds
    · exact h.keys
    · intro row hrow hactive hserial
      rcases List.mem_append.mp hrow with hrow | hnew
      · exact h.active row hrow hactive hserial
      · obtain rfl := List.mem_singleton.mp hnew
        cases hactive
    · intro row hrow row' hrow' hactive hactive' hkey hserial
      rcases List.mem_append.mp hrow with hrow | hnew
      · rcases List.mem_append.mp hrow' with hrow' | hnew'
        · exact h.single row hrow row' hrow' hactive hactive' hkey hserial
        · obtain rfl := List.mem_singleton.mp hnew'
          cases hactive'
      · obtain rfl := List.mem_singleton.mp hnew
        cases hactive
    · intro command hcommand
      obtain ⟨row, hrow, hid⟩ := h.found command hcommand
      exact ⟨row, List.mem_append_left _ hrow, hid⟩
    · intro command hcommand row hrow hid hpending hserial
      rcases List.mem_append.mp hrow with hrow | hnew
      · exact h.hidden command hcommand row hrow hid hpending hserial
      · obtain rfl := List.mem_singleton.mp hnew
        obtain ⟨old, hold, hold'⟩ := h.found command hcommand
        exact absurd (hold'.trans hid.symm) (hfresh old hold)

theorem Serial.transition (h : Serial x) (hxy : Transition x y) : Serial y := by
  have hback : ∀ row ∈ y.nodes, ∃ old ∈ x.nodes, row.id = old.id ∧ old.status.Moves row.status :=
    fun row hrow => forall₂_mem_right hxy.nodes hrow
  have hids : y.nodes.map (·.id) = x.nodes.map (·.id) := by
    have hmap : List.Forall₂ (fun a b => a = b) (x.nodes.map fun row => row.id)
        (y.nodes.map fun row => row.id) := by
      rw [List.forall₂_map_left_iff, List.forall₂_map_right_iff]
      exact hxy.nodes.imp fun _ _ hrow => hrow.1.symm
    exact (List.forall₂_eq_eq_eq ▸ hmap).symm
  have hactive : ∀ {status next : OrchestrationNodeStatus}, status.Moves next →
      next.isActive = true → status.isActive = true := by
    rintro status next (rfl | hterminal | ⟨hactive, _⟩) hnext
    · exact hnext
    · cases next <;> simp [isTerminalNode, OrchestrationNodeStatus.isActive] at hterminal hnext
    · exact hactive
  have hpending : ∀ {status : OrchestrationNodeStatus}, status.Moves .pending →
      status = .pending := by
    rintro status (hsame | hterminal | ⟨_, hnext⟩)
    · exact hsame.symm
    · cases hterminal
    · cases hnext
  constructor
  · rw [hids]
    exact h.ids
  · rw [hxy.outbox]
    exact h.outboxIds
  · rw [hxy.consumptions]
    exact h.keys
  · intro row hrow hrowActive hserial
    obtain ⟨old, hold, hid, hmoves⟩ := hback row hrow
    rw [hxy.consumptions, hid]
    rw [serialTarget_of_plan hxy.plan, hid] at hserial
    exact h.active old hold (hactive hmoves hrowActive) hserial
  · intro row hrow row' hrow' hrowActive hrowActive' hkey hserial
    obtain ⟨old, hold, hid, hmoves⟩ := hback row hrow
    obtain ⟨old', hold', hid', hmoves'⟩ := hback row' hrow'
    rw [serialTarget_of_plan hxy.plan, hid] at hserial
    rw [hid, hid'] at hkey ⊢
    exact h.single old hold old' hold' (hactive hmoves hrowActive) (hactive hmoves' hrowActive') hkey
      hserial
  · intro command hcommand
    rw [hxy.outbox] at hcommand
    obtain ⟨old, hold, hnode⟩ := h.found command hcommand
    obtain ⟨row, hrow, hid, _⟩ := forall₂_mem_left hxy.nodes hold
    exact ⟨row, hrow, hid.trans hnode⟩
  · intro command hcommand row hrow hnode hrowPending hserial
    obtain ⟨old, hold, hid, hmoves⟩ := hback row hrow
    rw [hxy.outbox] at hcommand
    rw [serialTarget_of_plan hxy.plan, hid] at hserial
    rw [hrowPending] at hmoves
    exact h.hidden command hcommand old hold (hid.symm.trans hnode) (hpending hmoves) hserial

theorem Serial.step {target : Option NodeExecutionId} (h : Serial x) (hstep : SerialStep x target y) :
    Serial y := by
  cases hstep with
  | consume hkey hexec => exact h.consume hkey hexec
  | promote hexec => exact h.promote hexec
  | claim hnow hexec => exact h.claim hnow hexec
  | delivered id now =>
    refine h.setOutbox (fun _ => rfl) (fun _ => rfl) ?_
    intro command _ hwhen hpending
    simp [hpending] at hwhen
  | failed id error availableAt now =>
    refine h.setOutbox (fun _ => rfl) (fun _ => rfl) ?_
    intro command _ hwhen hpending
    simp [hpending] at hwhen
  | persist id stableOrder => exact h.persist id stableOrder
  | transition hxy => exact h.transition hxy

/-- The execution is there and has left the queue. -/
def Left (x : Store) (id : NodeExecutionId) : Prop :=
  (∃ row ∈ x.nodes, row.id = id) ∧ ∀ row ∈ x.nodes, row.id = id → row.status ≠ .pending

theorem Left.of_nodes {id : NodeExecutionId} (h : Left x id) (hnodes : y.nodes = x.nodes) :
    Left y id := by
  unfold Left
  rw [hnodes]
  exact h

/-- An execution that left the queue does not come back. -/
theorem Left.step {id : NodeExecutionId} {target : Option NodeExecutionId} (h : Left x id)
    (hstep : SerialStep x target y) : Left y id := by
  obtain ⟨⟨row, hrow, hid⟩, hleft⟩ := h
  cases hstep with
  | consume _ hexec => exact Left.of_nodes ⟨⟨row, hrow, hid⟩, hleft⟩ (consumeWithEffects_nodes hexec)
  | @claim _ now after claimed _ hexec =>
    refine Left.of_nodes ⟨⟨row, hrow, hid⟩, hleft⟩ ?_
    cases claimed with
    | none =>
      obtain ⟨_, rfl⟩ := hexec
      rfl
    | some claimed =>
      obtain ⟨_, _, _, _, _, rfl⟩ := hexec
      rfl
  | delivered _ _ => exact ⟨⟨row, hrow, hid⟩, hleft⟩
  | failed _ _ _ _ => exact ⟨⟨row, hrow, hid⟩, hleft⟩
  | promote hexec =>
    rcases promoteNextSerial_ok hexec with ⟨_, rfl⟩ | ⟨next, _, _, _, rfl⟩
    · exact ⟨⟨row, hrow, hid⟩, hleft⟩
    · refine ⟨⟨row, ?_, hid⟩, ?_⟩
      · refine mem_updateWhere.mpr (Or.inr ⟨hrow, ?_⟩)
        simp [hleft row hrow hid]
      · intro other hother hotherId
        rcases mem_updateWhere.mp hother with ⟨old, _, _, rfl⟩ | ⟨hold, _⟩
        · nofun
        · exact hleft other hold hotherId
  | persist other stableOrder =>
    unfold Store.persistNode
    split_ifs with hfound
    · exact ⟨⟨row, hrow, hid⟩, hleft⟩
    · refine ⟨⟨row, List.mem_append_left _ hrow, hid⟩, ?_⟩
      intro new hnew hnewId
      rcases List.mem_append.mp hnew with hnew | hnew
      · exact hleft new hnew hnewId
      · obtain rfl := List.mem_singleton.mp hnew
        have hnone : x.node? other = none := by simpa using hfound
        have hmissing := List.find?_eq_none.mp hnone row hrow
        exact absurd (hid.trans hnewId.symm) (by simpa using hmissing)
  | transition hxy =>
    obtain ⟨row', hrow', hid', _⟩ := forall₂_mem_left hxy.nodes hrow
    refine ⟨⟨row', hrow', hid'.trans hid⟩, ?_⟩
    intro new hnew hnewId hpending
    obtain ⟨old, hold, holdId, hmoves⟩ := forall₂_mem_right hxy.nodes hnew
    rw [hpending] at hmoves
    rcases hmoves with hsame | hterminal | ⟨_, hactive⟩
    · exact hleft old hold (holdId.symm.trans hnewId) hsame.symm
    · cases hterminal
    · cases hactive

theorem left_of_promote {id : NodeExecutionId} (hstep : SerialStep x (some id) y) :
    ¬ Left x id ∧ Left y id := by
  generalize htarget : some id = target at hstep
  cases hstep with
  | @promote _ key now promoted hexec =>
    cases promoted with
    | none => cases htarget
    | some next =>
      obtain rfl : id = next.target := Option.some.inj htarget
      obtain ⟨hmem, _⟩ := promoteNextSerial_least hexec
      obtain ⟨_, _, _, hpending⟩ := serialQueue_target hmem
      obtain ⟨row, hrow, hstatus⟩ := (Option.any_eq_true _ _).mp hpending
      have hrowPending : row.status = .pending := by simpa using hstatus
      have hid : row.id = next.target := by simpa using List.find?_some hrow
      have hrowMem : row ∈ x.nodes := List.mem_of_find?_eq_some hrow
      refine ⟨fun hleft => hleft.2 row hrowMem hid hrowPending, ?_⟩
      rcases promoteNextSerial_ok hexec with ⟨hnone, _⟩ | ⟨_, heq, _, _, rfl⟩
      · cases hnone
      · cases heq
        refine ⟨⟨{ row with status := .ready }, ?_, hid⟩, ?_⟩
        · exact mem_updateWhere.mpr (Or.inl ⟨row, hrowMem, by simp [hid, hrowPending], rfl⟩)
        · intro other hother hotherId
          rcases mem_updateWhere.mp hother with ⟨old, _, _, rfl⟩ | ⟨_, hwhen⟩
          · nofun
          · intro hotherPending
            simp [hotherId, hotherPending] at hwhen
  | _ => cases htarget

end Invariant

/-- In a run that was just started, a serial Each join has one active target at a time, no command of
a target that waits can be claimed, a target is promoted once, and the one that is promoted is the
least of the queue. -/
theorem serial_queue_exclusive {x w : Store} {promoted : List NodeExecutionId} (hx : x.Fresh)
    (h : SerialRun x promoted w) :
    (∀ row ∈ w.nodes, ∀ row' ∈ w.nodes, row.status.isActive = true → row'.status.isActive = true →
      row.id.nodeKey = row'.id.nodeKey → w.serialTarget row.id = true → row.id = row'.id) ∧
    (∀ now after, now < never → ∀ command ∈ (w.reclaimDeliveries now after).outbox,
      ∀ row ∈ w.nodes, row.id = command.command.node → row.status = .pending →
      w.serialTarget row.id = true → command.claimable now = false) ∧
    promoted.Nodup ∧
    ∀ join now next w', w.promoteNextSerial join now = .ok (some next, w') →
      next ∈ w.serialQueue join ∧ ∀ other ∈ w.serialQueue join, next.before other = true := by
  have hinv : Serial w ∧ promoted.Nodup ∧ ∀ id ∈ promoted, Left w id := by
    induction h with
    | start =>
      refine ⟨⟨hx.ids, ?_, ?_, ?_, ?_, ?_, ?_⟩, List.nodup_nil, nofun⟩
      · simp [hx.outbox]
      · simp [hx.consumptions]
      · intro row hrow hactive
        rw [hx.pending row hrow] at hactive
        cases hactive
      · intro row hrow row' _ hactive
        rw [hx.pending row hrow] at hactive
        cases hactive
      · simp [hx.outbox]
      · simp [hx.outbox]
    | @step promoted y target z _ hstep ih =>
      obtain ⟨hserial, hnodup, hleft⟩ := ih
      refine ⟨hserial.step hstep, ?_, ?_⟩
      · cases target with
        | none => exact hnodup
        | some id =>
          refine List.nodup_cons.mpr ⟨?_, hnodup⟩
          exact fun hmem => (left_of_promote hstep).1 (hleft id hmem)
      · intro id hid
        rcases List.mem_append.mp hid with hnew | hold
        · obtain rfl : target = some id := Option.mem_toList.mp hnew
          exact (left_of_promote hstep).2
        · exact (hleft id hold).step hstep
  obtain ⟨hserial, hnodup, _⟩ := hinv
  refine ⟨hserial.single, ?_, hnodup, fun join now next w' => promoteNextSerial_least⟩
  intro now after hnow command hcommand row hrow hid hpending hserialTarget
  obtain ⟨_, htime⟩ := (hserial.reclaim now after).hidden command hcommand row hrow hid hpending
    hserialTarget
  simp [OutboxRow.claimable, htime, hnow]

section Fixture

/-- Two sources of a serial Each join whose results were received. -/
def serialStore : Store where
  plan := [⟨"join", 2, ["a", "b"], .each, .allowPartial, .continue, .serial⟩]
  state := ⟨.running, false, 0, none, 0⟩
  events := []
  nodes := [⟨⟨"a", 0⟩, 0, .pending⟩, ⟨⟨"b", 0⟩, 1, .pending⟩, ⟨⟨"join", 0⟩, 2, .pending⟩,
    ⟨⟨"join", 1⟩, 2, .pending⟩]
  links := [⟨⟨"a", 0⟩, 1, .caller "a"⟩, ⟨⟨"b", 0⟩, 2, .caller "b"⟩]
  outbox := []
  inbox := [⟨10, ⟨100, 1, 5, some ⟨"a", 0⟩, .lifecycleChanged .succeeded⟩, .processing, 1⟩,
    ⟨11, ⟨101, 2, 7, some ⟨"b", 0⟩, .lifecycleChanged .succeeded⟩, .processing, 2⟩]
  consumptions := []
  lease := none
  agents := fun _ => none
  clock := 3
  nextId := 20

theorem serialStore_fresh : serialStore.Fresh := ⟨by decide, by decide, rfl, rfl⟩

def createTarget (iteration : ℕ) : AgentRunPortCommandEnvelope :=
  ⟨.caller iteration, .caller (if iteration = 0 then "first" else "second"), 7 + iteration,
    ⟨"join", iteration⟩, 3, .create (7 + iteration) "request" true⟩

def joinDecision (source : String) (sequence : ℕ) : OrchestrationEventEnvelope :=
  ⟨.joinDecision ⟨"join", 0⟩ ⟨source, 0⟩, sequence, 3, .joinDecided ⟨"join", 0⟩ .each [⟨source, 0⟩]⟩

/-- Both sources are consumed, the second one first; the target of the first one is promoted. -/
theorem serial_queue_exclusive_promoted : ∃ w, SerialRun serialStore [⟨"join", 0⟩] w ∧
    w.nodes.map (·.status) = [.pending, .pending, .ready, .pending] ∧
    w.outbox.map (·.availableAt) = [never, 4] ∧ [(⟨"join", 0⟩ : NodeExecutionId)].Nodup := by
  obtain ⟨x₁, h₁, x₂, h₂, next, x₃, h₃, htarget, hnodes, houtbox⟩ : ∃ x₁,
      serialStore.consumeWithEffects 11 ⟨"join", 0⟩ ⟨"b", 0⟩ (some ⟨"join", 1⟩) (joinDecision "b" 1)
        (some (21, createTarget 1)) = .ok (true, x₁) ∧
      ∃ x₂, x₁.consumeWithEffects 10 ⟨"join", 0⟩ ⟨"a", 0⟩ (some ⟨"join", 0⟩) (joinDecision "a" 2)
        (some (20, createTarget 0)) = .ok (true, x₂) ∧
      ∃ next x₃, x₂.promoteNextSerial ⟨"join", 0⟩ 4 = .ok (some next, x₃) ∧
        next.target = ⟨"join", 0⟩ ∧
        x₃.nodes.map (·.status) = [.pending, .pending, .ready, .pending] ∧
        x₃.outbox.map (·.availableAt) = [never, 4] :=
    ⟨_, rfl, _, rfl, _, _, rfl, rfl, rfl, rfl⟩
  have hrun : SerialRun serialStore [⟨"join", 0⟩] x₃ := by
    have hfirst := SerialRun.start.step (.consume (by rintro id ⟨⟩; rfl) h₁)
    have hsecond := hfirst.step (.consume (by rintro id ⟨⟩; rfl) h₂)
    have hthird := hsecond.step (.promote h₃)
    rw [Option.map_some, htarget] at hthird
    exact hthird
  exact ⟨x₃, hrun, hnodes, houtbox, (serial_queue_exclusive serialStore_fresh hrun).2.2.1⟩

end Fixture

end VibeKanban.Orchestration
