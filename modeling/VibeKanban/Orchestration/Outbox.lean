import VibeKanban.Lib.Discipline
import VibeKanban.Orchestration.Effects

/-! The delivery of the outbox by any number of dispatchers: why a row is delivered, who may hand its
command to the port, and when it can be claimed. -/
namespace VibeKanban.Orchestration
open Lib Relation

/-- Dispatchers with any redelivery timeout, and the reconciliation of a restart. -/
inductive DeliveryCall : Program Unit → Prop where
  | deliver (redelivery : ℕ) : DeliveryCall (do let _ ← deliverNextAfter redelivery)
  | reconcile : DeliveryCall (do
      let now ← Program.exec .now
      Program.exec (.reconcileInflight now))

/-- A row keeps its identity and its command, and it stays delivered. -/
structure SameRow (row row' : OutboxRow) : Prop where
  id : row'.id = row.id
  command : row'.command = row.command
  delivered : row.status = .delivered → row'.status = .delivered

/-- The identities of rows and commands are keys. -/
structure Store.OutboxKeys (x : Store) : Prop where
  ids : (x.outbox.map (·.id)).Nodup
  commands : (x.outbox.map (·.command)).Nodup

/-- The rows keep their identities and the keys; only those that may be are newly delivered. -/
structure OutboxStep (M : ℕ → Prop) (x y : Store) : Prop where
  rows : Evolves SameRow x.outbox y.outbox
  keys : x.OutboxKeys → y.OutboxKeys
  delivered : ∀ row' ∈ y.outbox, row'.status = .delivered →
    (∃ row ∈ x.outbox, SameRow row row' ∧ row.status = .delivered) ∨ M row'.id

/-- What happens around the dispatchers delivers nothing. -/
abbrev OutboxAround : Store → Store → Prop := OutboxStep fun _ => False

def DeliveryRun : Calls → Calls → Prop :=
  StepsWhen Stmt.Exec OutboxAround DeliveryCall fun _ _ => True

/-- The port accepted the command. -/
def AcceptedByPort (tr : List (Sigma Stmt.Ans)) (command : AgentRunPortCommandEnvelope) : Prop :=
  (∃ run, ⟨.create command, .ok run⟩ ∈ tr) ∨ ⟨.control command, .ok ()⟩ ∈ tr

/-- A dispatcher saw that the run was cancelling or terminal. -/
def SawStopped (tr : List (Sigma Stmt.Ans)) : Prop :=
  ∃ status : OrchestrationRunStatus, status.stopped = true ∧ ⟨.readStatus, status⟩ ∈ tr

/-- The command is handed to the port. -/
def Stmt.hands (command : AgentRunPortCommandEnvelope) : Stmt → Prop
  | .create handed | .control handed => handed = command
  | _ => False

/-- The row is claimed. -/
def ClaimsRow (id : ℕ) (e : Sigma Stmt.Ans) : Prop :=
  ∃ now after row, e = ⟨.claimOutbox now after, some row⟩ ∧ row.id = id

/-- The program can hand the command to the port before it claims another row. -/
def MayHandOver (command : AgentRunPortCommandEnvelope) : Program Unit → Prop
  | .op (.claimOutbox ..) _ => False
  | .op (.create handed) k => handed = command ∨ ∃ a, MayHandOver command (k a)
  | .op (.control handed) k => handed = command ∨ ∃ a, MayHandOver command (k a)
  | .op _ k => ∃ a, MayHandOver command (k a)
  | _ => False

section Discipline

/-- Where a dispatcher stands: without a row, with a claimed row, or with a row it may report as
delivered. -/
inductive DeliveryPosition where
  | idle
  | claimed (row : OutboxRow)
  | settled (row : OutboxRow)

open DeliveryPosition

def deliveryAllowed : Stmt → DeliveryPosition → Prop
  | .claimOutbox .., idle => True
  | .create command, claimed row => command = row.command
  | .control command, claimed row => command = row.command
  | .markDelivered id _, settled row => id = row.id
  | .markFailed id _ _ _, claimed row => id = row.id
  | .markFailed id _ _ _, settled row => id = row.id
  | .readStatus, claimed row => row.command.command.launches = true
  | .now, _ | .read .., _ | .insertLink _, _ | .reconcileInflight _, _ => True
  | _, _ => False

def deliveryNext : (s : Stmt) → s.Ans → DeliveryPosition → DeliveryPosition
  | .claimOutbox .., some row, _ => claimed row
  | .readStatus, status, claimed row => if status.stopped then settled row else claimed row
  | .create _, .ok _, claimed row => settled row
  | .control _, .ok _, claimed row => settled row
  | _, _, g => g

def deliveryDiscipline : Discipline Stmt Stmt.Ans DeliveryPosition where
  allowed := deliveryAllowed
  possible _ _ _ := True
  next := deliveryNext
  final _ := True

/-- The row is reported as delivered. -/
theorem markDelivered_keeps {row : OutboxRow} :
    deliveryDiscipline.Keeps (do
      Program.exec (.markDelivered row.id (← Program.exec .now))
      return true : Program Bool) (fun _ _ => True) (settled row) := by
  refine Discipline.keeps_step trivial fun now _ => Discipline.keeps_step rfl fun _ _ => ?_
  exact Discipline.keeps_pure trivial

theorem markFailed_keeps {row : OutboxRow} {error : AgentRunPortError} {g : DeliveryPosition}
    (hg : g = claimed row ∨ g = settled row) :
    deliveryDiscipline.Keeps (do
      let now ← Program.exec .now
      Program.exec (.markFailed row.id error (now + 1000) now)
      Prog.fail (.port error) : Program Bool) (fun _ _ => True) g := by
  refine Discipline.keeps_step trivial fun now _ => Discipline.keeps_step ?_ fun _ _ => trivial
  rcases hg with rfl | rfl
  · rfl
  · rfl

theorem persistLink_keeps {link : AgentRunLink} {g : DeliveryPosition} :
    deliveryDiscipline.Keeps (persistLink link) (fun r g' => g' = g ∧ ∃ a, r = .ok a) g := by
  refine Discipline.keeps_step trivial ?_
  intro inserted _
  cases inserted with
  | error error => exact Discipline.keeps_pure ⟨rfl, _, rfl⟩
  | ok _ =>
    refine Discipline.keeps_step trivial ?_
    intro existing _
    split_ifs
    · exact Discipline.keeps_pure ⟨rfl, _, rfl⟩
    · exact Discipline.keeps_pure ⟨rfl, _, rfl⟩

theorem dispatch_keeps {row : OutboxRow} : deliveryDiscipline.Keeps (dispatch row.command)
    (fun r g => match r with
      | .ok (.ok _) => g = settled row
      | _ => g = claimed row ∨ g = settled row) (claimed row) := by
  unfold dispatch
  split
  next requestRun request attemptValid _ =>
    refine Discipline.keeps_step rfl ?_
    intro created _
    cases created with
    | error error => exact Discipline.keeps_pure (Or.inl rfl)
    | ok run =>
      dsimp only
      split_ifs with hrun
      · exact Discipline.keeps_pure (Or.inr rfl)
      · refine Discipline.keeps_bind.mpr (Discipline.keeps_mono persistLink_keeps ?_)
        rintro _ g ⟨rfl, linked, rfl⟩
        cases linked with
        | error error => exact Discipline.keeps_pure (Or.inr rfl)
        | ok _ => exact Discipline.keeps_pure rfl
  next =>
    refine Discipline.keeps_stmt rfl ?_
    intro answered _
    cases answered with
    | error error => exact Or.inl rfl
    | ok _ => rfl

theorem deliver_keeps {row : OutboxRow} :
    deliveryDiscipline.Keeps (deliver row) (fun _ _ => True) (claimed row) := by
  unfold deliver dispatchStopped
  split_ifs with hlaunches
  on_goal 1 =>
    refine Discipline.keeps_step hlaunches ?_
    intro status _
    show deliveryDiscipline.Keeps (if status.stopped = true then _ else _) _
      (if status.stopped then settled row else claimed row)
    split_ifs with hstopped
    on_goal 1 => exact markDelivered_keeps
  all_goals
    change deliveryDiscipline.Keeps (dispatch row.command >>= _) _ (claimed row)
    refine Discipline.keeps_bind.mpr (Discipline.keeps_mono dispatch_keeps ?_)
    intro r g hg
    cases r with
    | error _ => trivial
    | ok result =>
      cases result with
      | error error => exact markFailed_keeps hg
      | ok _ =>
        subst hg
        exact markDelivered_keeps

theorem deliveryCall_follows {p : Program Unit} (h : DeliveryCall p) :
    deliveryDiscipline.Follows p idle := by
  cases h with
  | deliver redelivery =>
    refine Discipline.keeps_step trivial fun now _ => Discipline.keeps_step trivial ?_
    intro found _
    cases found with
    | none => trivial
    | some row =>
      refine Discipline.keeps_bind.mpr (Discipline.keeps_mono deliver_keeps ?_)
      intro r _ _
      cases r <;> trivial
  | reconcile =>
    refine Discipline.keeps_step trivial fun now _ => ?_
    exact Discipline.keeps_stmt trivial fun _ _ => trivial

/-- Only a dispatcher with a claimed row hands over a command, and it is that of the row. -/
theorem claimed_of_hands {s : Stmt} {g : DeliveryPosition} {command : AgentRunPortCommandEnvelope}
    (hs : deliveryAllowed s g) (h : s.hands command) :
    ∃ row, g = claimed row ∧ row.command = command := by
  cases s with
  | create handed =>
    cases g with
    | idle => cases hs
    | claimed row => exact ⟨row, rfl, hs.symm.trans h⟩
    | settled row => cases hs
  | control handed =>
    cases g with
    | idle => cases hs
    | claimed row => exact ⟨row, rfl, hs.symm.trans h⟩
    | settled row => cases hs
  | _ => exact h.elim

end Discipline

section Rows
variable {x y : Store} {M : ℕ → Prop}

theorem SameRow.refl (row : OutboxRow) : SameRow row row :=
  ⟨rfl, rfl, fun h => h⟩

theorem SameRow.trans {a b c : OutboxRow} (h : SameRow a b) (h' : SameRow b c) : SameRow a c :=
  ⟨h'.id.trans h.id, h'.command.trans h.command,
    fun hdelivered => h'.delivered (h.delivered hdelivered)⟩

theorem OutboxStep.of_eq (h : y.outbox = x.outbox) : OutboxStep M x y := by
  constructor
  · rw [h]
    exact Evolves.refl SameRow.refl _
  · intro hkeys
    exact ⟨h ▸ hkeys.ids, h ▸ hkeys.commands⟩
  · intro row hrow hdelivered
    exact Or.inl ⟨row, h ▸ hrow, SameRow.refl row, hdelivered⟩

/-- An update that keeps identities and commands. -/
theorem OutboxStep.setOutbox {when : OutboxRow → Bool} {change : OutboxRow → OutboxRow}
    (hid : ∀ row, (change row).id = row.id)
    (hcommand : ∀ row, (change row).command = row.command)
    (hkept : ∀ row ∈ x.outbox, when row = true → row.status ≠ .delivered)
    (hnew : ∀ row ∈ x.outbox, when row = true → (change row).status = .delivered → M row.id) :
    OutboxStep M x (x.setOutbox when change) := by
  constructor
  · refine evolves_updateWhere SameRow.refl ?_
    intro row hrow hwhen
    exact ⟨hid row, hcommand row, fun hdelivered => absurd hdelivered (hkept row hrow hwhen)⟩
  · intro hkeys
    constructor
    · show ((updateWhere when change x.outbox).map (·.id)).Nodup
      rw [map_updateWhere hid]
      exact hkeys.ids
    · show ((updateWhere when change x.outbox).map (·.command)).Nodup
      rw [map_updateWhere hcommand]
      exact hkeys.commands
  · intro row hrow hdelivered
    rcases mem_updateWhere.mp hrow with ⟨old, hold, hwhen, rfl⟩ | ⟨hold, _⟩
    · rw [hid]
      exact Or.inr (hnew old hold hwhen hdelivered)
    · exact Or.inl ⟨row, hold, SameRow.refl row, hdelivered⟩

theorem OutboxStep.trans {z : Store} (h : OutboxStep M x y) (h' : OutboxStep M y z) :
    OutboxStep M x z := by
  constructor
  · exact Evolves.trans (R := SameRow) (fun _ _ _ h h' => h.trans h') h.rows h'.rows
  · exact fun hkeys => h'.keys (h.keys hkeys)
  · intro row hrow hdelivered
    rcases h'.delivered row hrow hdelivered with ⟨row', hrow', hsame, hdelivered'⟩ | hmay
    · rcases h.delivered row' hrow' hdelivered' with ⟨old, hold, hsame', holdDelivered⟩ | hmay
      · exact Or.inl ⟨old, hold, hsame'.trans hsame, holdDelivered⟩
      · rw [← hsame.id] at hmay
        exact Or.inr hmay
    · exact Or.inr hmay

theorem reclaim_outboxStep (now after : ℕ) : OutboxStep M x (x.reclaimDeliveries now after) := by
  refine OutboxStep.setOutbox (fun _ => rfl) (fun _ => rfl) ?_ ?_
  · intro row _ hwhen hdelivered
    simp [hdelivered] at hwhen
  · intro row _ _ hdelivered
    cases hdelivered

theorem claimable_status {row : OutboxRow} {now : ℕ} (h : row.claimable now = true) :
    row.status ≠ .delivered := by
  intro hdelivered
  simp [OutboxRow.claimable, hdelivered] at h

/-- A claim takes a row that is not delivered. -/
theorem claimOutbox_outboxStep {now after : ℕ} {claimed : Option OutboxRow} (hkeys : x.OutboxKeys)
    (h : (Stmt.claimOutbox now after).Exec x claimed y) : OutboxStep M x y ∧
      ∀ row, claimed = some row → ∃ old ∈ x.outbox, old.id = row.id ∧ old.command = row.command ∧
        old.status ≠ .delivered := by
  have hreclaim : OutboxStep M x (x.reclaimDeliveries now after) := reclaim_outboxStep now after
  cases claimed with
  | none =>
    obtain ⟨_, rfl⟩ := h
    exact ⟨hreclaim, fun row hrow => by cases hrow⟩
  | some claimed =>
    obtain ⟨row, hrow, hclaimable, _, rfl, rfl⟩ := h
    have hids := (hreclaim.keys hkeys).ids
    constructor
    · refine hreclaim.trans (OutboxStep.setOutbox (fun _ => rfl) (fun _ => rfl) ?_ ?_)
      · intro other hother hid
        obtain rfl : other = row :=
          List.inj_on_of_nodup_map hids hother hrow (by simpa using hid)
        exact claimable_status hclaimable
      · intro other _ _ hdelivered
        cases hdelivered
    · intro claimed hclaimed
      obtain rfl := Option.some.inj hclaimed
      rcases mem_updateWhere.mp hrow with ⟨old, hold, hwhen, rfl⟩ | ⟨hold, _⟩
      · refine ⟨old, hold, rfl, rfl, ?_⟩
        intro hdelivered
        simp [hdelivered] at hwhen
      · exact ⟨row, hold, rfl, rfl, claimable_status hclaimable⟩

theorem insertLink_outbox {link : AgentRunLink} {result : Except OrchestrationPersistenceError Unit}
    (h : (Stmt.insertLink link).Exec x result y) : y.outbox = x.outbox := by
  rcases committed_cases h with ⟨_, _, _, rfl⟩ | ⟨_, hok, _⟩
  · rfl
  · exact (insertLink_log hok).2

/-- What a statement of a dispatcher does to the rows. -/
theorem outboxStep_of_allowed {s : Stmt} {a : s.Ans} {g : DeliveryPosition} (hkeys : x.OutboxKeys)
    (hs : deliveryAllowed s g) (h : s.Exec x a y) :
    OutboxStep (fun id => ∃ row, g = .settled row ∧ id = row.id) x y := by
  cases s with
  | claimOutbox now after => exact (claimOutbox_outboxStep hkeys h).1
  | create command =>
    cases a with
    | error error =>
      obtain rfl : y = x := h
      exact .of_eq rfl
    | ok run =>
      have hy : y = if (x.agents run).isSome then x else x.setAgent run .pending := h
      split_ifs at hy
      · exact .of_eq (by rw [hy])
      · exact .of_eq (by rw [hy]; rfl)
  | control command =>
    refine .of_eq ?_
    simp only [Stmt.Exec] at h
    split at h
    · obtain ⟨status, rfl⟩ := h
      rfl
    · rw [h]
  | markDelivered id now =>
    cases h
    refine OutboxStep.setOutbox (fun _ => rfl) (fun _ => rfl) ?_ ?_
    · intro row _ hwhen hdelivered
      simp [hdelivered] at hwhen
    · intro row _ hwhen _
      cases g with
      | settled held =>
        have hid : row.id = id := by
          simp only [Bool.and_eq_true, decide_eq_true_eq] at hwhen
          exact hwhen.1
        exact ⟨held, rfl, hid.trans hs⟩
      | idle => cases hs
      | claimed held => cases hs
  | markFailed id error availableAt now =>
    cases h
    refine OutboxStep.setOutbox (fun _ => rfl) (fun _ => rfl) ?_ ?_
    · intro row _ hwhen hdelivered
      simp [hdelivered] at hwhen
    · intro row _ _ hdelivered
      cases hdelivered
  | reconcileInflight now =>
    cases h
    exact reclaim_outboxStep now 0
  | insertLink link => exact .of_eq (insertLink_outbox h)
  | now =>
    cases h
    exact .of_eq rfl
  | readStatus =>
    cases h
    exact .of_eq rfl
  | read β f =>
    cases h
    exact .of_eq rfl
  | _ => exact hs.elim

end Rows

section Invariant
open DeliveryPosition

/-- The rows dispatchers have in hand are rows of the outbox. -/
structure Held (x : Store) (gs : List DeliveryPosition) : Prop where
  keys : x.OutboxKeys
  rows : ∀ g ∈ gs, ∀ row, g = claimed row ∨ g = settled row →
    ∃ old ∈ x.outbox, old.id = row.id ∧ old.command = row.command

/-- Why the command of a row need not be handed to the port any more: it was accepted, or it is a
launch of a stopped run. -/
def Resolved (tr : List (Sigma Stmt.Ans)) (command : AgentRunPortCommandEnvelope) : Prop :=
  AcceptedByPort tr command ∨ command.command.launches = true ∧ SawStopped tr

/-- Every delivered row was delivered at the start or is resolved, and so is what dispatchers are
about to report. -/
structure Sound (start : Store) (tr : List (Sigma Stmt.Ans)) (x : Store)
    (gs : List DeliveryPosition) : Prop extends Held x gs where
  settled : ∀ row, settled row ∈ gs → Resolved tr row.command
  delivered : ∀ row ∈ x.outbox, row.status = .delivered →
    (∃ old ∈ start.outbox, SameRow old row ∧ old.status = .delivered) ∨ Resolved tr row.command

variable {x y : Store} {tr : List (Sigma Stmt.Ans)} {M : ℕ → Prop}

theorem Held.step {gs gs' : List DeliveryPosition} (h : Held x gs) (hstep : OutboxStep M x y)
    (hgs : ∀ g ∈ gs', ∀ row, g = claimed row ∨ g = DeliveryPosition.settled row →
      (∃ g' ∈ gs, g' = claimed row ∨ g' = DeliveryPosition.settled row) ∨
      ∃ old ∈ x.outbox, old.id = row.id ∧ old.command = row.command) : Held y gs' := by
  refine ⟨hstep.keys h.keys, ?_⟩
  intro g hg row hrow
  obtain ⟨old, hold, hid, hcommand⟩ : ∃ old ∈ x.outbox, old.id = row.id ∧
      old.command = row.command := by
    rcases hgs g hg row hrow with ⟨g', hg', hrow'⟩ | hfound
    · exact h.rows g' hg' row hrow'
    · exact hfound
  obtain ⟨new, hnew, hsame⟩ := hstep.rows.exists_mem hold
  exact ⟨new, hnew, hsame.id.trans hid, hsame.command.trans hcommand⟩

/-- A dispatcher comes to hold a row by a claim. -/
theorem deliveryNext_claimed {s : Stmt} {a : s.Ans} {g : DeliveryPosition} {row : OutboxRow}
    (h : deliveryNext s a g = claimed row) : g = claimed row ∨
      ∃ now after, (⟨s, a⟩ : Sigma Stmt.Ans) = ⟨.claimOutbox now after, some row⟩ := by
  unfold deliveryNext at h
  split at h
  next _ now after held =>
    cases h
    exact Or.inr ⟨now, after, rfl⟩
  next status held =>
    split_ifs at h
    exact Or.inl h
  next => cases h
  next => cases h
  next => exact Or.inl h

theorem deliveryNext_row {s : Stmt} {a : s.Ans} {g : DeliveryPosition} {row : OutboxRow}
    (h : deliveryNext s a g = claimed row ∨ deliveryNext s a g = settled row) :
    (g = claimed row ∨ g = settled row) ∨
      ∃ now after, (⟨s, a⟩ : Sigma Stmt.Ans) = ⟨.claimOutbox now after, some row⟩ := by
  rcases h with hclaimed | hsettled
  · rcases deliveryNext_claimed hclaimed with hkept | hclaim
    · exact Or.inl (Or.inl hkept)
    · exact Or.inr hclaim
  · left
    unfold deliveryNext at hsettled
    split at hsettled
    next => cases hsettled
    next status held =>
      split_ifs at hsettled
      exact Or.inl (by simpa using hsettled)
    next => exact Or.inl (by simpa using hsettled)
    next => exact Or.inl (by simpa using hsettled)
    next => exact Or.inr hsettled

theorem Resolved.cons {e : Sigma Stmt.Ans} {command : AgentRunPortCommandEnvelope}
    (h : Resolved tr command) : Resolved (e :: tr) command := by
  rcases h with (⟨run, hrun⟩ | hcontrol) | ⟨hlaunches, status, hstopped, hread⟩
  · exact Or.inl (Or.inl ⟨run, List.mem_cons_of_mem _ hrun⟩)
  · exact Or.inl (Or.inr (List.mem_cons_of_mem _ hcontrol))
  · exact Or.inr ⟨hlaunches, status, hstopped, List.mem_cons_of_mem _ hread⟩

/-- A dispatcher comes to report a row as delivered only after it is resolved. -/
theorem deliveryNext_settled {s : Stmt} {a : s.Ans} {g : DeliveryPosition} {row : OutboxRow}
    (tr : List (Sigma Stmt.Ans)) (hs : deliveryAllowed s g) (h : deliveryNext s a g = settled row) :
    g = settled row ∨ Resolved (⟨s, a⟩ :: tr) row.command := by
  unfold deliveryNext at h
  split at h
  next => cases h
  next status held =>
    split_ifs at h with hstopped
    cases h
    exact Or.inr (Or.inr ⟨hs, status, hstopped, List.mem_cons_self⟩)
  next command run held =>
    cases h
    obtain rfl : command = row.command := hs
    exact Or.inr (Or.inl (Or.inl ⟨run, List.mem_cons_self⟩))
  next command answer held =>
    cases h
    obtain rfl : command = row.command := hs
    exact Or.inr (Or.inl (Or.inr List.mem_cons_self))
  next => exact Or.inl h

/-- The positions after a statement hold rows of the outbox. -/
theorem Held.act {gb ga : List DeliveryPosition} {s : Stmt} {a : s.Ans} {g : DeliveryPosition}
    (h : Held x (gb ++ g :: ga)) (hs : deliveryAllowed s g) (hexec : s.Exec x a y) :
    Held y (gb ++ deliveryNext s a g :: ga) := by
  refine h.step (outboxStep_of_allowed h.keys hs hexec) ?_
  intro g' hg' row hrow
  rcases List.mem_append.mp hg' with hmem | hmem
  · exact Or.inl ⟨g', List.mem_append_left _ hmem, hrow⟩
  · rcases List.mem_cons.mp hmem with rfl | hmem
    · rcases deliveryNext_row hrow with hkept | ⟨now, after, hclaim⟩
      · exact Or.inl ⟨g, by simp, hkept⟩
      · cases hclaim
        obtain ⟨old, hold, hid, hcommand, _⟩ :=
          (claimOutbox_outboxStep (M := fun _ => False) h.keys hexec).2 row rfl
        exact Or.inr ⟨old, hold, hid, hcommand⟩
    · exact Or.inl ⟨g', List.mem_append_right _ (List.mem_cons_of_mem _ hmem), hrow⟩

/-- Two rows of one outbox with one identity are one. -/
theorem Store.OutboxKeys.eq_of_id (h : x.OutboxKeys) {row other : OutboxRow} (hrow : row ∈ x.outbox)
    (hother : other ∈ x.outbox) (hid : row.id = other.id) : row = other :=
  List.inj_on_of_nodup_map h.ids hrow hother hid

theorem Store.OutboxKeys.eq_of_command (h : x.OutboxKeys) {row other : OutboxRow}
    (hrow : row ∈ x.outbox) (hother : other ∈ x.outbox) (hid : row.command = other.command) :
    row = other :=
  List.inj_on_of_nodup_map h.commands hrow hother hid

theorem Sound.act {start : Store} {gb ga : List DeliveryPosition} {s : Stmt} {a : s.Ans}
    {g : DeliveryPosition} (h : Sound start tr x (gb ++ g :: ga)) (hs : deliveryAllowed s g)
    (hexec : s.Exec x a y) : Sound start (⟨s, a⟩ :: tr) y (gb ++ deliveryNext s a g :: ga) := by
  have hstep := outboxStep_of_allowed h.keys hs hexec
  have hheld := h.toHeld.act hs hexec
  refine ⟨hheld, ?_, ?_⟩
  · intro row hrow
    rcases List.mem_append.mp hrow with hmem | hmem
    · exact (h.settled row (List.mem_append_left _ hmem)).cons
    · rcases List.mem_cons.mp hmem with hnext | hmem
      · rcases deliveryNext_settled tr hs hnext.symm with rfl | hresolved
        · exact (h.settled row (by simp)).cons
        · exact hresolved
      · exact (h.settled row (List.mem_append_right _ (List.mem_cons_of_mem _ hmem))).cons
  · intro row hrow hdelivered
    rcases hstep.delivered row hrow hdelivered with ⟨old, hold, hsame, holdDelivered⟩ | ⟨held, rfl, hid⟩
    · rcases h.delivered old hold holdDelivered with ⟨first, hfirst, hsame', hfirstDelivered⟩ | hresolved
      · exact Or.inl ⟨first, hfirst, hsame'.trans hsame, hfirstDelivered⟩
      · right
        rw [hsame.command]
        exact hresolved.cons
    -- the row that is reported is the one in hand
    · obtain ⟨old, hold, holdId, holdCommand⟩ := h.rows _ (by simp) held (Or.inr rfl)
      obtain ⟨new, hnew, hsame⟩ := hstep.rows.exists_mem hold
      obtain rfl := hheld.keys.eq_of_id hrow hnew (hid.trans (holdId.symm.trans hsame.id.symm))
      right
      rw [hsame.command, holdCommand]
      exact (h.settled held (by simp)).cons

theorem Sound.env {start : Store} {gs : List DeliveryPosition} (h : Sound start tr x gs)
    (henv : OutboxAround x y) : Sound start tr y gs := by
  refine ⟨h.toHeld.step henv (fun g hg row hrow => Or.inl ⟨g, hg, hrow⟩), h.settled, ?_⟩
  intro row hrow hdelivered
  obtain ⟨old, hold, hsame, holdDelivered⟩ := (henv.delivered row hrow hdelivered).resolve_right id
  rcases h.delivered old hold holdDelivered with ⟨first, hfirst, hsame', hfirstDelivered⟩ | hresolved
  · exact Or.inl ⟨first, hfirst, hsame'.trans hsame, hfirstDelivered⟩
  · rw [hsame.command]
    exact Or.inr hresolved

theorem Sound.sublist {start : Store} {gs gs' : List DeliveryPosition} (h : Sound start tr x gs)
    (hgs : ∀ g ∈ gs', g = idle ∨ g ∈ gs) : Sound start tr x gs' := by
  refine ⟨⟨h.keys, ?_⟩, ?_, h.delivered⟩
  · intro g hg row hrow
    rcases hgs g hg with rfl | hmem
    · simp at hrow
    · exact h.rows g hmem row hrow
  · intro row hrow
    exact h.settled row ((hgs _ hrow).resolve_left (by simp))

/-- The positions of the dispatchers of a run and what they make sure of. -/
theorem sound_of_run {w : Calls} (hkeys : x.OutboxKeys) (h : DeliveryRun (.start x) w) :
    ∃ gs, Positioned deliveryDiscipline w.threads gs ∧ Sound x w.trace w.state gs := by
  refine StepsWhen.positions (I := Sound x) (fun _ => deliveryCall_follows) ?_ ?_ ?_ ?_ h .nil ?_
  · intro tr x gs hsound
    exact hsound.sublist fun g hg => List.mem_cons.mp hg
  · intro tr x y before after s k a gb g ga _ _ hfollows hsound hexec _
    exact ⟨trivial, hsound.act hfollows.1 hexec⟩
  · intro tr x before after p gb g ga _ _ _ hsound _
    refine hsound.sublist fun g' hg' => Or.inr ?_
    rcases List.mem_append.mp hg' with hmem | hmem
    · exact List.mem_append_left _ hmem
    · exact List.mem_append_right _ (List.mem_cons_of_mem _ hmem)
  · exact fun tr x y gs hsound henv => hsound.env henv
  · refine ⟨⟨hkeys, fun g hg => (List.not_mem_nil hg).elim⟩,
      fun row hrow => (List.not_mem_nil hrow).elim, ?_⟩
    intro row hrow hdelivered
    exact Or.inl ⟨row, hrow, SameRow.refl row, hdelivered⟩

end Invariant

section Barred
variable {command : AgentRunPortCommandEnvelope} {x y : Store}

def Stmt.claims : Stmt → Bool
  | .claimOutbox .. => true
  | _ => false

/-- The discipline with a bar: until its next claim a barred dispatcher does not hand over the
command. -/
def barredDiscipline (command : AgentRunPortCommandEnvelope) :
    Discipline Stmt Stmt.Ans (DeliveryPosition × Bool) where
  allowed s g := deliveryAllowed s g.1 ∧ (g.2 = true → ¬ s.hands command)
  possible _ _ _ := True
  next s a g := (deliveryNext s a g.1, g.2 && !s.claims)
  final _ := True

theorem follows_unbarred {p : Program Unit} {g : DeliveryPosition}
    (h : deliveryDiscipline.Follows p g) : (barredDiscipline command).Follows p (g, false) := by
  induction p generalizing g with
  | ret a => trivial
  | fail e => trivial
  | op s k ih =>
    refine ⟨⟨h.1, fun hbarred => by cases hbarred⟩, ?_⟩
    rintro a _ ⟨_, rfl⟩
    exact ih a (h.2 a _ ⟨trivial, rfl⟩)

theorem mayHandOver_step {s : Stmt} {k : s.Ans → Program Unit} (hs : s.claims = false)
    (h : s.hands command ∨ ∃ a, MayHandOver command (k a)) : MayHandOver command (.op s k) := by
  cases s with
  | claimOutbox now after => cases hs
  | create handed => exact h
  | control handed => exact h
  | _ => exact h.resolve_left id

/-- A dispatcher that cannot hand over the command follows the discipline behind the bar. -/
theorem follows_barred {p : Program Unit} {g : DeliveryPosition}
    (h : deliveryDiscipline.Follows p g) (hp : ¬ MayHandOver command p) :
    (barredDiscipline command).Follows p (g, true) := by
  induction p generalizing g with
  | ret a => trivial
  | fail e => trivial
  | op s k ih =>
    cases hclaims : s.claims with
    | true =>
      refine ⟨⟨h.1, fun _ hhands => ?_⟩, ?_⟩
      · cases s <;> first | exact hhands | cases hclaims
      · rintro a _ ⟨_, rfl⟩
        show (barredDiscipline command).Follows (k a) (deliveryNext s a g, true && !s.claims)
        rw [hclaims]
        exact follows_unbarred (h.2 a _ ⟨trivial, rfl⟩)
    | false =>
      refine ⟨⟨h.1, fun _ hhands => hp (mayHandOver_step hclaims (Or.inl hhands))⟩, ?_⟩
      rintro a _ ⟨_, rfl⟩
      show (barredDiscipline command).Follows (k a) (deliveryNext s a g, true && !s.claims)
      rw [hclaims]
      exact ih a (h.2 a _ ⟨trivial, rfl⟩)
        fun ha => hp (mayHandOver_step hclaims (Or.inr ⟨a, ha⟩))

theorem positioned_barred {F : Prop} {threads : List (Program Unit)}
    {gs : List DeliveryPosition} (h : Positioned deliveryDiscipline threads gs)
    (hfree : F → ∀ p ∈ threads, ¬ MayHandOver command p) :
    ∃ gs', Positioned (barredDiscipline command) threads gs' ∧ gs'.map Prod.fst = gs ∧
      (F → ∀ g ∈ gs', g.2 = true) := by
  induction h with
  | nil => exact ⟨[], .nil, rfl, fun _ g hg => (List.not_mem_nil hg).elim⟩
  | @cons p g threads gs hp _ ih =>
    obtain ⟨gs', hgs', hmap, hbarred⟩ := ih fun hf q hq => hfree hf q (List.mem_cons_of_mem _ hq)
    by_cases hf : F
    · refine ⟨(g, true) :: gs', .cons (follows_barred hp (hfree hf p List.mem_cons_self)) hgs', ?_, ?_⟩
      · rw [List.map_cons, hmap]
      · intro hf g' hg'
        rcases List.mem_cons.mp hg' with rfl | hg'
        · rfl
        · exact hbarred hf g' hg'
    · refine ⟨(g, false) :: gs', .cons (follows_unbarred hp) hgs', ?_, fun hf' => absurd hf' hf⟩
      rw [List.map_cons, hmap]

open DeliveryPosition

/-- After a row was recorded as delivered: no one claims it, and when everyone who held it is barred
no one hands over its command. -/
structure Recorded (row : OutboxRow) (free : Prop) (before tr : List (Sigma Stmt.Ans)) (x : Store)
    (gs : List (DeliveryPosition × Bool)) : Prop where
  held : Held x (gs.map Prod.fst)
  kept : ∃ row' ∈ x.outbox, SameRow row row'
  barred : free → ∀ held b, (claimed held, b) ∈ gs → held.command = row.command → b = true
  later : ∃ new, tr = new ++ before ∧
    ∀ e ∈ new, ¬ ClaimsRow row.id e ∧ (free → ¬ e.1.hands row.command)

variable {row : OutboxRow} {free : Prop} {before tr : List (Sigma Stmt.Ans)}
  {gs : List (DeliveryPosition × Bool)}

theorem Recorded.act {gb ga : List (DeliveryPosition × Bool)} {s : Stmt} {a : s.Ans}
    {g : DeliveryPosition × Bool} (h : Recorded row free before tr x (gb ++ g :: ga))
    (hdelivered : row.status = .delivered) (hs : (barredDiscipline row.command).allowed s g)
    (hexec : s.Exec x a y) : Recorded row free before (⟨s, a⟩ :: tr) y
      (gb ++ (barredDiscipline row.command).next s a g :: ga) := by
  have hheld : Held x (gb.map Prod.fst ++ g.1 :: ga.map Prod.fst) := by
    have hmap := h.held
    rwa [List.map_append, List.map_cons] at hmap
  obtain ⟨row', hrow', hsame⟩ := h.kept
  -- what is claimed is another row with another command
  have hclaim : ∀ {now after claimed}, (Stmt.claimOutbox now after).Exec x (some claimed) y →
      claimed.id ≠ row.id ∧ claimed.command ≠ row.command := by
    intro now after claimed hexec
    obtain ⟨old, hold, hid, hcommand, hstatus⟩ :=
      (claimOutbox_outboxStep (M := fun _ => False) hheld.keys hexec).2 claimed rfl
    have hdelivered' := hsame.delivered hdelivered
    constructor
    · intro heq
      obtain rfl := hheld.keys.eq_of_id hold hrow' (hid.trans (heq.trans hsame.id.symm))
      exact hstatus hdelivered'
    · intro heq
      obtain rfl := hheld.keys.eq_of_command hold hrow'
        (hcommand.trans (heq.trans hsame.command.symm))
      exact hstatus hdelivered'
  constructor
  · rw [List.map_append, List.map_cons]
    exact hheld.act hs.1 hexec
  · obtain ⟨row'', hrow'', hsame'⟩ :=
      (outboxStep_of_allowed hheld.keys hs.1 hexec).rows.exists_mem hrow'
    exact ⟨row'', hrow'', hsame.trans hsame'⟩
  · intro hfree held b hmem hcommand
    rcases List.mem_append.mp hmem with hmem | hmem
    · exact h.barred hfree held b (List.mem_append_left _ hmem) hcommand
    · rcases List.mem_cons.mp hmem with hnext | hmem
      · obtain ⟨hposition, rfl⟩ := Prod.mk.inj hnext
        rcases deliveryNext_claimed hposition.symm with hkept | ⟨now, after, hclaimed⟩
        · have hb : g.2 = true := h.barred hfree held g.2 (by simp [← hkept]) hcommand
          have hclaims : s.claims = false := by
            have hallowed := hs.1
            rw [hkept] at hallowed
            cases s with
            | claimOutbox now after => exact hallowed.elim
            | _ => rfl
          rw [hb, hclaims]
          rfl
        · cases hclaimed
          exact absurd hcommand (hclaim hexec).2
      · exact h.barred hfree held b (List.mem_append_right _ (List.mem_cons_of_mem _ hmem)) hcommand
  · obtain ⟨new, rfl, hnew⟩ := h.later
    refine ⟨⟨s, a⟩ :: new, rfl, ?_⟩
    intro e he
    rcases List.mem_cons.mp he with rfl | he
    · constructor
      · rintro ⟨now, after, claimed, heq, hid⟩
        cases heq
        exact (hclaim hexec).1 hid
      · intro hfree hhands
        obtain ⟨held, hg, hcommand⟩ := claimed_of_hands hs.1 hhands
        exact hs.2 (h.barred hfree held g.2 (by simp [← hg]) hcommand) hhands
    · exact hnew e he

theorem Recorded.env (h : Recorded row free before tr x gs) (henv : OutboxAround x y) :
    Recorded row free before tr y gs := by
  refine ⟨h.held.step henv (fun g hg row hrow => Or.inl ⟨g, hg, hrow⟩), ?_, h.barred, h.later⟩
  obtain ⟨row', hrow', hsame⟩ := h.kept
  obtain ⟨row'', hrow'', hsame'⟩ := henv.rows.exists_mem hrow'
  exact ⟨row'', hrow'', hsame.trans hsame'⟩

theorem Recorded.sublist {gs' : List (DeliveryPosition × Bool)}
    (h : Recorded row free before tr x gs) (hgs : ∀ g ∈ gs', g.1 = idle ∨ g ∈ gs) :
    Recorded row free before tr x gs' := by
  refine ⟨⟨h.held.keys, ?_⟩, h.kept, ?_, h.later⟩
  · intro g hg held hheld
    obtain ⟨g, hmem, rfl⟩ := List.mem_map.mp hg
    rcases hgs g hmem with hidle | hmem
    · rw [hidle] at hheld
      simp at hheld
    · exact h.held.rows g.1 (List.mem_map_of_mem hmem) held hheld
  · intro hfree held b hmem
    exact h.barred hfree held b ((hgs _ hmem).resolve_left (by simp))

/-- What follows a row that is delivered. -/
theorem delivered_row_settled {w w' : Calls} (hkeys : x.OutboxKeys) (h : DeliveryRun (.start x) w)
    (hrow : row ∈ w.state.outbox) (hdelivered : row.status = .delivered) (h' : DeliveryRun w w') :
    (∃ row' ∈ w'.state.outbox, SameRow row row') ∧ ∃ new, w'.trace = new ++ w.trace ∧
      ∀ e ∈ new, ¬ ClaimsRow row.id e ∧
        ((∀ p ∈ w.threads, ¬ MayHandOver row.command p) → ¬ e.1.hands row.command) := by
  obtain ⟨gs₀, hpositioned, hsound⟩ := sound_of_run hkeys h
  obtain ⟨gs, hgs, hmap, hbarred⟩ := positioned_barred
    (F := ∀ p ∈ w.threads, ¬ MayHandOver row.command p) hpositioned id
  have hlater : ∃ gs', Positioned (barredDiscipline row.command) w'.threads gs' ∧
      Recorded row (∀ p ∈ w.threads, ¬ MayHandOver row.command p) w.trace w'.trace w'.state gs' := by
    refine StepsWhen.positions (fun p hp => follows_unbarred (deliveryCall_follows hp))
      ?_ ?_ ?_ ?_ h' hgs ?_
    · intro tr x gs hrecorded
      refine hrecorded.sublist fun g hg => ?_
      rcases List.mem_cons.mp hg with rfl | hg
      · exact Or.inl rfl
      · exact Or.inr hg
    · intro tr x y before after s k a gb g ga _ _ hfollows hrecorded hexec _
      exact ⟨trivial, hrecorded.act hdelivered hfollows.1 hexec⟩
    · intro tr x before after p gb g ga _ _ _ hrecorded _
      refine hrecorded.sublist fun g' hg' => Or.inr ?_
      rcases List.mem_append.mp hg' with hmem | hmem
      · exact List.mem_append_left _ hmem
      · exact List.mem_append_right _ (List.mem_cons_of_mem _ hmem)
    · exact fun tr x y gs hrecorded henv => hrecorded.env henv
    · refine ⟨hmap.symm ▸ hsound.toHeld, ⟨row, hrow, SameRow.refl row⟩, ?_, [], rfl, ?_⟩
      · exact fun hfree held b hmem _ => hbarred hfree _ hmem
      · exact fun e he => (List.not_mem_nil he).elim
  obtain ⟨_, _, hrecorded⟩ := hlater
  exact ⟨hrecorded.kept, hrecorded.later⟩

end Barred

section Claims

/-- A row that is not delivered can be claimed once its time has come and its lease has passed. -/
theorem claimable_of_not_delivered {x : Store} {row : OutboxRow} {now after : ℕ}
    (hrow : row ∈ x.outbox) (hstatus : row.status ≠ .delivered) (htime : row.availableAt ≤ now)
    (hlease : row.status = .delivering → row.updatedAt + after ≤ now) :
    ∃ row' ∈ (x.reclaimDeliveries now after).outbox, SameRow row row' ∧
      row'.claimable now = true := by
  by_cases hdelivering : row.status = .delivering
  · refine ⟨{ row with status := .pending, updatedAt := now }, ?_, ⟨rfl, rfl, ?_⟩, ?_⟩
    · exact mem_updateWhere.mpr (Or.inl ⟨row, hrow, by simp [hdelivering, hlease], rfl⟩)
    · exact fun h => absurd h hstatus
    · simp [OutboxRow.claimable, htime]
  · refine ⟨row, mem_updateWhere.mpr (Or.inr ⟨hrow, by simp [hdelivering]⟩), SameRow.refl row, ?_⟩
    have hopen : row.status = .pending ∨ row.status = .failed := by
      cases hcase : row.status with
      | pending => exact Or.inl rfl
      | failed => exact Or.inr rfl
      | delivering => exact absurd hcase hdelivering
      | delivered => exact absurd hcase hstatus
    simpa [OutboxRow.claimable, htime] using hopen

/-- While a row can be claimed, a dispatcher does not come back empty-handed. -/
theorem claims_of_claimable {x y : Store} {row : OutboxRow} {now after : ℕ}
    {claimed : Option OutboxRow} (hrow : row ∈ (x.reclaimDeliveries now after).outbox)
    (hclaimable : row.claimable now = true)
    (h : (Stmt.claimOutbox now after).Exec x claimed y) : ∃ row', claimed = some row' := by
  cases claimed with
  | none =>
    have hnone := h.1 row hrow
    rw [hclaimable] at hnone
    cases hnone
  | some row' => exact ⟨row', rfl⟩

/-- A queued command is a step around the dispatchers. -/
theorem enqueueOutbox_around {x y : Store} {id : ℕ} {command : AgentRunPortCommandEnvelope}
    {result : ℕ × Bool} (h : x.enqueueOutbox id command = .ok (result, y)) : OutboxAround x y := by
  rcases enqueueOutbox_ok h with ⟨_, rfl⟩ | ⟨hfresh, rfl⟩
  · exact .of_eq rfl
  · constructor
    · exact evolves_append SameRow.refl _ _
    · intro hkeys
      constructor
      · show ((x.outbox ++ [_]).map fun row : OutboxRow => row.id).Nodup
        rw [List.map_append, List.nodup_append']
        refine ⟨hkeys.ids, List.nodup_singleton _, ?_⟩
        intro other hother hnew
        obtain ⟨old, hold, rfl⟩ := List.mem_map.mp hother
        exact (hfresh old hold).1 (List.mem_singleton.mp hnew)
      · show ((x.outbox ++ [_]).map fun row : OutboxRow => row.command).Nodup
        rw [List.map_append, List.nodup_append']
        refine ⟨hkeys.commands, List.nodup_singleton _, ?_⟩
        intro other hother hnew
        obtain ⟨old, hold, rfl⟩ := List.mem_map.mp hother
        exact (hfresh old hold).2 (congrArg _ (List.mem_singleton.mp hnew))
    · intro row hrow hdelivered
      rcases List.mem_append.mp hrow with hold | hnew
      · exact Or.inl ⟨row, hold, SameRow.refl row, hdelivered⟩
      · obtain rfl := List.mem_singleton.mp hnew
        cases hdelivered

end Claims

/-- The delivery of the outbox. A delivered row was delivered at the start, its command was accepted,
or it launches a run that was seen to be stopped; it stays so, is not claimed again, and only a
dispatcher that claimed it before may still hand over its command. A row that is not delivered can be
claimed when its time has come and its lease has passed. -/
theorem outbox_delivery {x : Store} (hkeys : x.OutboxKeys) {w : Calls}
    (h : DeliveryRun (.start x) w) {row : OutboxRow} (hrow : row ∈ w.state.outbox) :
    (row.status = .delivered →
      ((∃ old ∈ x.outbox, SameRow old row ∧ old.status = .delivered) ∨
        AcceptedByPort w.trace row.command ∨
        row.command.command.launches = true ∧ SawStopped w.trace) ∧
      ∀ w', DeliveryRun w w' → (∃ row' ∈ w'.state.outbox, SameRow row row') ∧
        ∃ new, w'.trace = new ++ w.trace ∧ ∀ e ∈ new, ¬ ClaimsRow row.id e ∧
          ((∀ p ∈ w.threads, ¬ MayHandOver row.command p) → ¬ e.1.hands row.command)) ∧
    (row.status ≠ .delivered → ∀ now after, row.availableAt ≤ now →
      (row.status = .delivering → row.updatedAt + after ≤ now) →
      (∃ row' ∈ (w.state.reclaimDeliveries now after).outbox, SameRow row row' ∧
        row'.claimable now = true) ∧
      ∀ claimed y, (Stmt.claimOutbox now after).Exec w.state claimed y →
        ∃ row', claimed = some row') := by
  constructor
  · intro hdelivered
    obtain ⟨_, _, hsound⟩ := sound_of_run hkeys h
    exact ⟨hsound.delivered row hrow hdelivered,
      fun w' h' => delivered_row_settled hkeys h hrow hdelivered h'⟩
  · intro hstatus now after htime hlease
    obtain ⟨row', hrow', hsame, hclaimable⟩ :=
      claimable_of_not_delivered hrow hstatus htime hlease
    exact ⟨⟨row', hrow', hsame, hclaimable⟩,
      fun claimed y hexec => claims_of_claimable hrow' hclaimable hexec⟩

section Fixture

def launch : AgentRunPortCommandEnvelope :=
  ⟨.caller 1, .caller "dispatch", 7, ⟨"a", 0⟩, 1, .create 7 "request" true⟩

/-- One launch waits in the outbox. -/
@[reducible] def launchStore : Store where
  plan := []
  state := ⟨.running, false, 0, none, 0⟩
  events := []
  nodes := [⟨⟨"a", 0⟩, 0, .ready⟩]
  links := []
  outbox := [⟨1, launch, .pending, 0, 1, 1, 1, none⟩]
  inbox := []
  consumptions := []
  lease := none
  agents := fun _ => none
  clock := 1
  nextId := 2

theorem launchStore_keys : launchStore.OutboxKeys :=
  ⟨List.nodup_singleton _, List.nodup_singleton _⟩

def dispatcher : Program Unit := do let _ ← deliverNext

theorem start_deliveryRun {x : Store} {threads : List (Program Unit)}
    (h : ∀ p ∈ threads, p = dispatcher) : DeliveryRun (.start x) ⟨[], x, threads⟩ := by
  refine stepsWhen_spawn (fun _ _ _ _ => trivial) fun p hp => ?_
  rw [h p hp]
  exact .deliver redeliveryAfter

theorem follow_deliveryRun {schedule : List ℕ} {w w' : Calls}
    (h : follow (Stmt.unless fun _ _ => false) schedule w = some w') : DeliveryRun w w' :=
  follow_stepsWhen Stmt.unless_exec (fun _ _ _ _ _ _ _ _ _ => trivial) h

/-- The first dispatcher is slow: its lease passes, the second one claims the row, the first one
launches the run and reports the row, and the second one launches the run again. -/
theorem late_dispatcher : ∃ w w' : Calls,
    DeliveryRun (.start launchStore) w ∧ DeliveryRun w w' ∧
    (∃ row ∈ w.state.outbox, row.command = launch ∧ row.status = .delivered) ∧
    AcceptedByPort w.trace launch ∧
    ∃ e new, w'.trace = e :: new ++ w.trace ∧ e.1.hands launch := by
  have hstart : DeliveryRun (.start launchStore) ⟨[], launchStore, [dispatcher, dispatcher]⟩ :=
    start_deliveryRun fun p hp => by simpa using hp
  obtain ⟨w₁, h₁, w, h₂, hrow, haccepted, w', h₃, e, he, hhands⟩ : ∃ w₁ : Calls,
      follow (Stmt.unless fun _ _ => false) [0, 0] ⟨[], launchStore, [dispatcher, dispatcher]⟩ =
        some w₁ ∧
      ∃ w : Calls, follow (Stmt.unless fun _ _ => false) [1, 1, 0, 0, 0, 0, 0, 0]
        ⟨w₁.trace, { w₁.state with clock := 30001 }, w₁.threads⟩ = some w ∧
      (∃ row ∈ w.state.outbox, row.command = launch ∧ row.status = .delivered) ∧
      AcceptedByPort w.trace launch ∧
      ∃ w' : Calls, follow (Stmt.unless fun _ _ => false) [1, 1] w = some w' ∧
        ∃ e new, w'.trace = e :: new ++ w.trace ∧ e.1.hands launch :=
    ⟨_, rfl, _, rfl, ⟨_, List.mem_cons_self, rfl, rfl⟩,
      Or.inl ⟨7, .tail _ (.tail _ (.tail _ (.tail _ (.head _))))⟩, _, rfl, _, [_],
      rfl, rfl⟩
  have henv : DeliveryRun w₁ ⟨w₁.trace, { w₁.state with clock := 30001 }, w₁.threads⟩ :=
    .single ⟨Step.env (.of_eq rfl), trivial⟩
  exact ⟨w, w', ((hstart.trans (follow_deliveryRun h₁)).trans henv).trans (follow_deliveryRun h₂),
    follow_deliveryRun h₃, hrow, haccepted, e, he, hhands⟩

theorem outbox_handed_twice : launchStore.OutboxKeys ∧ ∃ w w' : Calls,
    DeliveryRun (.start launchStore) w ∧ DeliveryRun w w' ∧
    (∃ row ∈ w.state.outbox, row.command = launch ∧ row.status = .delivered) ∧
    AcceptedByPort w.trace launch ∧
    ∃ e new, w'.trace = e :: new ++ w.trace ∧ e.1.hands launch :=
  ⟨launchStore_keys, late_dispatcher⟩

/-- The late dispatcher hands over the launch of a delivered row, which it may because it claimed the
row before; the row stays delivered and is not claimed again. -/
theorem outbox_delivery_late : ∃ w w' : Calls, ∃ row ∈ w.state.outbox, ∃ e new,
    DeliveryRun (.start launchStore) w ∧ DeliveryRun w w' ∧ row.status = .delivered ∧
    w'.trace = (e :: new) ++ w.trace ∧ e.1.hands row.command ∧
    (∃ row' ∈ w'.state.outbox, SameRow row row') ∧ (∀ e' ∈ e :: new, ¬ ClaimsRow row.id e') ∧
    ∃ p ∈ w.threads, MayHandOver row.command p := by
  obtain ⟨w, w', h, h', ⟨row, hrow, hcommand, hstatus⟩, -, e, new, htrace, hhands⟩ := late_dispatcher
  rw [← hcommand] at hhands
  obtain ⟨hdelivered, _⟩ := outbox_delivery launchStore_keys h hrow
  obtain ⟨hkept, new', htrace', hnew⟩ := (hdelivered hstatus).2 w' h'
  obtain rfl : e :: new = new' := List.append_cancel_right (htrace.symm.trans htrace')
  refine ⟨w, w', row, hrow, e, new, h, h', hstatus, htrace, hhands, hkept,
    fun e' he' => (hnew e' he').1, ?_⟩
  by_contra hnobody
  push Not at hnobody
  exact (hnew e List.mem_cons_self).2 hnobody hhands

end Fixture

end VibeKanban.Orchestration
