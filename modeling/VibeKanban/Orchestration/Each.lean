import VibeKanban.Lib.Discipline
import VibeKanban.Orchestration.Effects

/-! The targets of an Each join: every source execution is given the target whose iteration is the
rank of the source among the rows of the target's dependencies. -/
namespace VibeKanban.Orchestration
open Lib Relation

/-- The row stands before a source. -/
def NodeExecution.precedes (row source : NodeExecution) : Prop :=
  row.stableOrder < source.stableOrder ∨
    row.stableOrder = source.stableOrder ∧ row.id.iteration < source.id.iteration

def NodeExecution.ties (row source : NodeExecution) : Prop :=
  row.stableOrder = source.stableOrder ∧ row.id.iteration = source.id.iteration

/-- The target that a source would be given now. -/
def Store.eachTarget (x : Store) (t : OrchestrationPlanNode) (source : NodeExecutionId) :
    Option NodeExecutionId :=
  (x.node? source).map fun row => ⟨t.nodeKey, eachRank t.dependencies row x.nodes⟩

/-- Give a source its target, then consume its event. -/
def evaluateSource (owner : String) (inboxId : ℕ) (target : OrchestrationPlanNode)
    (source : NodeExecutionId) (command : Option AgentRunPortCommandEnvelope) : Program Unit := do
  let (join, id) ← ensureJoinTargetExecution target source
  Program.exec (.note join source id)
  let _ ← consumeSourceEventWithEffects owner inboxId join source (some id) command

/-- Sources of any target are evaluated and executions of any node are created. The join of `t` is
that of no other target. -/
inductive EachCall (t : OrchestrationPlanNode) : Program Unit → Prop where
  | evaluate (owner : String) (inboxId : ℕ) (target : OrchestrationPlanNode)
    (source : NodeExecutionId) (command : Option AgentRunPortCommandEnvelope)
    (hkey : target.nodeKey = t.nodeKey → target = t) (hsource : source.nodeKey ∈ target.dependencies) :
    EachCall t (evaluateSource owner inboxId target source command)
  | create (id : NodeExecutionId) (stableOrder : ℕ) :
    EachCall t (do let _ ← persistIdentityBeforeDispatch id stableOrder)

/-- What happens around the calls neither creates executions nor consumes sources. -/
structure SameRows (x y : Store) : Prop where
  rows : y.nodes.map (fun row => (row.id, row.stableOrder)) =
    x.nodes.map fun row => (row.id, row.stableOrder)
  consumptions : y.consumptions = x.consumptions

/-- The rank of the source was read for the target. -/
def Ranked (t : OrchestrationPlanNode) (tr : List (Sigma Stmt.Ans)) (source : NodeExecutionId) :
    Prop := ∃ rows : List NodeExecution, ⟨.readSources t source, rows⟩ ∈ tr

/-- A call gave the source this target. -/
def Given (t : OrchestrationPlanNode) (tr : List (Sigma Stmt.Ans)) (source id : NodeExecutionId) :
    Prop := ⟨.note ⟨t.nodeKey, 0⟩ source id, ()⟩ ∈ tr

/-- No execution is created that stands before a source whose rank was read. -/
def InOrder (t : OrchestrationPlanNode) (w w' : Calls) : Prop :=
  ∀ id stableOrder, w'.trace = ⟨.persistNode id stableOrder, ()⟩ :: w.trace →
    w.state.node? id = none → id.nodeKey ∈ t.dependencies →
    ∀ source row, Ranked t w.trace source → w.state.node? source = some row →
      ¬ NodeExecution.precedes ⟨id, stableOrder, .pending⟩ row

/-- No rank is read of a source that ties with another whose rank was read. -/
def Untied (t : OrchestrationPlanNode) (w w' : Calls) : Prop :=
  ∀ source (rows : List NodeExecution), w'.trace = ⟨.readSources t source, rows⟩ :: w.trace →
    ∀ other row row', other ≠ source → Ranked t w.trace other →
      w.state.node? source = some row → w.state.node? other = some row' → ¬ row.ties row'

def EachRun (t : OrchestrationPlanNode) (C : Calls → Calls → Prop) :
    Calls → Calls → Prop :=
  StepsWhen Stmt.Exec SameRows (EachCall t) C

section Rank
variable {dependencies : List String} {rows : List NodeExecution} {a b : NodeExecution}

theorem mem_eachRank_iff {row source : NodeExecution} :
    (dependencies.contains row.id.nodeKey && (decide (row.stableOrder < source.stableOrder) ||
      decide (row.stableOrder = source.stableOrder) &&
        decide (row.id.iteration < source.id.iteration))) = true ↔
      row.id.nodeKey ∈ dependencies ∧ row.precedes source := by
  simp [NodeExecution.precedes]

/-- A source that stands before another has a smaller rank. -/
theorem eachRank_lt (ha : a ∈ rows) (hkey : a.id.nodeKey ∈ dependencies) (hab : a.precedes b) :
    eachRank dependencies a rows < eachRank dependencies b rows := by
  have hsame : List.Forall₂ (fun r r' => r' = r) rows rows := List.forall₂_same.mpr fun _ _ => rfl
  refine countP_lt_of_forall₂ hsame ?_ ha ?_ ?_
  · rintro row _ rfl hrow
    obtain ⟨hmem, hprecedes⟩ := mem_eachRank_iff.mp hrow
    refine mem_eachRank_iff.mpr ⟨hmem, ?_⟩
    unfold NodeExecution.precedes at *
    omega
  · simp
  · rintro _ rfl
    exact mem_eachRank_iff.mpr ⟨hkey, hab⟩

theorem eachRank_ties (h : a.ties b) :
    eachRank dependencies a rows = eachRank dependencies b rows := by
  unfold eachRank
  rw [h.1, h.2]

theorem precedes_of_not_ties (h : ¬ a.ties b) : a.precedes b ∨ b.precedes a := by
  unfold NodeExecution.ties at h
  unfold NodeExecution.precedes
  omega

/-- A row that comes last changes the ranks of the sources it stands before. -/
theorem eachRank_append_iff {row : NodeExecution} :
    eachRank dependencies a (rows ++ [row]) = eachRank dependencies a rows ↔
      ¬ (row.id.nodeKey ∈ dependencies ∧ row.precedes a) := by
  unfold eachRank
  rw [List.countP_append, List.countP_singleton, ← mem_eachRank_iff]
  split_ifs with h
  · exact iff_of_false (by omega) fun hnot => hnot h
  · exact iff_of_true rfl h

end Rank

section Rows
variable {x y : Store} {t : OrchestrationPlanNode} {tr : List (Sigma Stmt.Ans)}

theorem Store.node?_id {id : NodeExecutionId} {row : NodeExecution} (h : x.node? id = some row) :
    row.id = id := by
  simpa using List.find?_some h

theorem Store.node?_mem {id : NodeExecutionId} {row : NodeExecution} (h : x.node? id = some row) :
    row ∈ x.nodes := List.mem_of_find?_eq_some h

/-- A row that is inserted is found, and the rows that were found are found again. -/
theorem Store.persistNode_node? (id other : NodeExecutionId) (stableOrder : ℕ) {row : NodeExecution}
    (h : x.node? other = some row) : (x.persistNode id stableOrder).node? other = some row := by
  unfold Store.persistNode
  split_ifs with hfound
  · exact h
  · show (x.nodes ++ [_]).find? _ = some row
    rw [List.find?_append, show x.nodes.find? _ = some row from h]
    rfl

/-- The rows that are found keep their order, and the sources whose ranks were read their targets. -/
structure Stable (t : OrchestrationPlanNode) (tr : List (Sigma Stmt.Ans)) (x y : Store) : Prop where
  row : ∀ id row, x.node? id = some row →
    ∃ row', y.node? id = some row' ∧ row'.stableOrder = row.stableOrder
  target : ∀ source, Ranked t tr source → y.eachTarget t source = x.eachTarget t source

theorem Stable.of_nodes (h : y.nodes = x.nodes) : Stable t tr x y := by
  have hnode : ∀ id, y.node? id = x.node? id := by
    intro id
    unfold Store.node?
    rw [h]
  constructor
  · intro id row hrow
    exact ⟨row, (hnode id).trans hrow, rfl⟩
  · intro source _
    unfold Store.eachTarget
    rw [hnode, h]

theorem find?_map_rows (f : NodeExecution → NodeExecutionId × ℕ)
    (hf : ∀ row, f row = (row.id, row.stableOrder)) (rows : List NodeExecution)
    (id : NodeExecutionId) :
    (rows.find? (·.id = id)).map f = (rows.map f).find? (·.1 = id) := by
  rw [List.find?_map]
  congr 2
  funext row
  simp [hf]

theorem Stable.of_sameRows (h : SameRows x y) : Stable t tr x y := by
  have hnode : ∀ id, (y.node? id).map (fun row => (row.id, row.stableOrder)) =
      (x.node? id).map fun row => (row.id, row.stableOrder) := by
    intro id
    unfold Store.node?
    rw [find?_map_rows _ (fun _ => rfl), find?_map_rows _ (fun _ => rfl), h.rows]
  have hrank : ∀ row row' : NodeExecution, row'.id = row.id → row'.stableOrder = row.stableOrder →
      eachRank t.dependencies row' y.nodes = eachRank t.dependencies row x.nodes := by
    intro row row' hid horder
    have hcount (rows : List NodeExecution) : eachRank t.dependencies row rows =
        (rows.map fun row => (row.id, row.stableOrder)).countP fun place =>
          t.dependencies.contains place.1.nodeKey && (decide (place.2 < row.stableOrder) ||
            decide (place.2 = row.stableOrder) &&
              decide (place.1.iteration < row.id.iteration)) := by
      rw [List.countP_map]
      rfl
    have hsame : eachRank t.dependencies row' y.nodes = eachRank t.dependencies row y.nodes := by
      unfold eachRank
      rw [hid, horder]
    rw [hsame, hcount, hcount, h.rows]
  constructor
  · intro id row hrow
    have hid := hnode id
    rw [hrow] at hid
    obtain ⟨row', hrow', hpair⟩ := Option.map_eq_some_iff.mp hid
    exact ⟨row', hrow', congrArg Prod.snd hpair⟩
  · intro source _
    have hid := hnode source
    unfold Store.eachTarget
    cases hx : x.node? source with
    | none =>
      rw [hx] at hid
      rw [Option.map_eq_none_iff.mp hid]
      rfl
    | some row =>
      rw [hx] at hid
      obtain ⟨row', hrow', hpair⟩ := Option.map_eq_some_iff.mp hid
      rw [hrow', Option.map_some, Option.map_some,
        hrank row row' (congrArg Prod.fst hpair) (congrArg Prod.snd hpair)]

/-- An execution that is created in order. -/
theorem Stable.of_persistNode {id : NodeExecutionId} {stableOrder : ℕ}
    (hexists : ∀ source, Ranked t tr source → (x.node? source).isSome)
    (h : x.node? id = none → id.nodeKey ∈ t.dependencies → ∀ source row, Ranked t tr source →
      x.node? source = some row → ¬ NodeExecution.precedes ⟨id, stableOrder, .pending⟩ row) :
    Stable t tr x (x.persistNode id stableOrder) := by
  constructor
  · intro other row hrow
    exact ⟨row, Store.persistNode_node? id other stableOrder hrow, rfl⟩
  · intro source hranked
    obtain ⟨row, hrow⟩ := Option.isSome_iff_exists.mp (hexists source hranked)
    unfold Store.eachTarget
    rw [hrow, Store.persistNode_node? id source stableOrder hrow, Option.map_some, Option.map_some]
    have hrank : eachRank t.dependencies row (x.persistNode id stableOrder).nodes =
        eachRank t.dependencies row x.nodes := by
      unfold Store.persistNode
      split_ifs with hfound
      · rfl
      · have hnone : x.node? id = none := by simpa using hfound
        refine eachRank_append_iff.mpr ?_
        rintro ⟨hkey, hprecedes⟩
        exact h hnone hkey source row hranked hrow hprecedes
    rw [hrank]

end Rows

section Discipline

/-- Where a call stands: it has the row of a source, or the target of one. -/
inductive EachPosition where
  | idle
  | reading (source : NodeExecutionId) (row : NodeExecution)
  | holding (source id : NodeExecutionId)

open EachPosition

variable (t : OrchestrationPlanNode)

def eachAllowed : Stmt → EachPosition → Prop
  | .readSources target source, g =>
    target = t → source.nodeKey ∈ t.dependencies ∧ ∃ row, g = reading source row
  | .note join source id, g => join = ⟨t.nodeKey, 0⟩ → g = holding source id
  | .consume _ join source target _ _, g =>
    join = ⟨t.nodeKey, 0⟩ → ∀ id, target = some id → g = holding source id
  | .readNode _, _ | .readConsumption .., _ | .persistNode .., _ | .readForConsumption .., _
  | .now, _ | .newId, _ | .acquire .., _ | .release _, _ => True
  | _, _ => False

def eachPossible : (s : Stmt) → s.Ans → EachPosition → Prop
  | .readNode id, some row, _ => row.id = id
  | _, _, _ => True

def eachNext : (s : Stmt) → s.Ans → EachPosition → EachPosition
  | .readConsumption join source, some row, g =>
    if join = ⟨t.nodeKey, 0⟩ then (row.target.map (holding source)).getD g else g
  | .readNode id, some row, idle => reading id row
  | .readNode id, some row, reading .. => reading id row
  | .readSources target source, rows, reading _ row =>
    if target = t then holding source ⟨t.nodeKey, eachRank t.dependencies row rows⟩ else idle
  | _, _, g => g

def eachDiscipline : Discipline Stmt Stmt.Ans EachPosition where
  allowed := eachAllowed t
  possible := eachPossible
  next := eachNext t
  final _ := True

variable {t}

theorem persistIdentity_keeps {id : NodeExecutionId} {stableOrder : ℕ} {g : EachPosition}
    {Q : Except OrchestrationServiceError NodeExecutionId → EachPosition → Prop}
    (hid : ∀ g', (∀ source id, g = holding source id → g' = g) → Q (.ok id) g')
    (herror : ∀ e g', Q (.error e) g') :
    (eachDiscipline t).Keeps (persistIdentityBeforeDispatch id stableOrder) Q g := by
  refine Discipline.keeps_step trivial fun _ _ => Discipline.keeps_step trivial ?_
  intro found hfound
  cases found with
  | none => exact herror _ _
  | some existing =>
    have hexisting : existing.id = id := hfound
    dsimp only
    split_ifs with horder
    · exact herror _ _
    · refine Discipline.keeps_pure ?_
      rw [hexisting]
      apply hid
      rintro source id rfl
      rfl

variable {target : OrchestrationPlanNode} {source : NodeExecutionId}

/-- The result of the call, and that a call for `t` ends with the target of its source. -/
def EnsuredFor (t target : OrchestrationPlanNode) (source : NodeExecutionId) :
    Except OrchestrationServiceError (NodeExecutionId × NodeExecutionId) → EachPosition → Prop
  | .ok (join, id), g => join = ⟨target.nodeKey, 0⟩ ∧ (target = t → g = holding source id)
  | .error _, _ => True

theorem eachTargetIteration_keeps (hsource : source.nodeKey ∈ target.dependencies) :
    (eachDiscipline t).Keeps (eachTargetIteration target source) (fun r g => match r with
      | .ok rank => target = t → g = holding source ⟨t.nodeKey, rank⟩
      | .error _ => True) idle := by
  refine Discipline.keeps_step trivial ?_
  intro found _
  cases found with
  | none => trivial
  | some row =>
    refine Discipline.keeps_step ?_ ?_
    · rintro rfl
      exact ⟨hsource, row, rfl⟩
    · intro rows _
      dsimp only
      split_ifs with hrank
      · refine Discipline.keeps_pure ?_
        rintro rfl
        exact if_pos rfl
      · trivial

theorem ensureJoinTargetExecution_keeps (ht : t.join = .each)
    (hsource : source.nodeKey ∈ target.dependencies) :
    (eachDiscipline t).Keeps (ensureJoinTargetExecution target source)
      (EnsuredFor t target source) idle := by
  have hpersist : ∀ iteration g, (target = t → g = holding source ⟨t.nodeKey, iteration⟩) →
      (eachDiscipline t).Keeps (do
        let id ← persistIdentityBeforeDispatch ⟨target.nodeKey, iteration⟩ target.stableOrder
        pure ((⟨target.nodeKey, 0⟩ : NodeExecutionId), id)) (EnsuredFor t target source) g := by
    intro iteration g hg
    refine Discipline.keeps_bind.mpr (persistIdentity_keeps ?_ fun _ _ => trivial)
    intro g' hg'
    refine Discipline.keeps_pure ⟨rfl, ?_⟩
    intro htarget
    rw [hg' _ _ (hg htarget), hg htarget, htarget]
  refine Discipline.keeps_step trivial ?_
  intro existing _
  cases hexisting : existing.bind (·.target) with
  | some id =>
    refine Discipline.keeps_pure ⟨rfl, ?_⟩
    rintro rfl
    obtain ⟨row, rfl, hrow⟩ := Option.bind_eq_some_iff.mp hexisting
    show eachNext target (.readConsumption _ source) (some row) idle = _
    rw [eachNext, if_pos rfl, hrow]
    rfl
  | none =>
    have hidle : eachNext t (.readConsumption ⟨target.nodeKey, 0⟩ source) existing idle = idle := by
      cases existing with
      | none => rfl
      | some row =>
        have hrow : row.target = none := hexisting
        rw [eachNext, hrow]
        split_ifs
        · rfl
        · rfl
    show (eachDiscipline t).Keeps _ _ (eachNext t _ existing idle)
    rw [hidle]
    dsimp only
    split_ifs with heach
    · refine Discipline.keeps_bind.mpr (Discipline.keeps_mono (eachTargetIteration_keeps hsource) ?_)
      intro r g hr
      cases r with
      | error e => trivial
      | ok iteration => exact hpersist iteration g hr
    · refine hpersist 0 idle ?_
      rintro rfl
      exact absurd ht heach

theorem consumeSourceEvent_keeps {owner : String} {inboxId : ℕ} {join : NodeExecutionId}
    {target : Option NodeExecutionId} {command : Option AgentRunPortCommandEnvelope}
    {g : EachPosition}
    (hg : join = ⟨t.nodeKey, 0⟩ → ∀ id, target = some id → g = holding source id) :
    (eachDiscipline t).Keeps (consumeSourceEventWithEffects owner inboxId join source target command)
      (fun _ _ => True) g := by
  refine Discipline.keeps_step trivial ?_
  intro found _
  match found with
  | none => trivial
  | some (sequence, plan) =>
    cases hnode : plan.find? (·.nodeKey = join.nodeKey) with
    | none =>
      simp only [hnode]
      trivial
    | some node =>
      simp only [hnode]
      refine Discipline.keeps_step trivial fun now _ => Discipline.keeps_step trivial ?_
      intro acquired _
      cases acquired with
      | false => trivial
      | true =>
        refine Discipline.keeps_step trivial fun now _ => Discipline.keeps_step trivial ?_
        intro eventId _
        refine Discipline.keeps_step hg ?_
        intro result _
        refine Discipline.keeps_step trivial fun _ _ => ?_
        cases result <;> trivial

/-- A call gives its source the target of the discipline, and consumes it so. -/
theorem eachCall_follows {p : Program Unit} (ht : t.join = .each) (h : EachCall t p) :
    (eachDiscipline t).Follows p idle := by
  cases h with
  | create id stableOrder =>
    refine Discipline.keeps_bind.mpr (persistIdentity_keeps ?_ fun _ _ => trivial)
    exact fun _ _ => Discipline.keeps_pure trivial
  | evaluate owner inboxId target source command hkey hsource =>
    have hensure := @ensureJoinTargetExecution_keeps t target source ht hsource
    refine Discipline.keeps_bind.mpr (Discipline.keeps_mono hensure ?_)
    rintro (e | ⟨join, id⟩) g hg
    · trivial
    · obtain ⟨rfl, hholding⟩ := hg
      have hjoin : (⟨target.nodeKey, 0⟩ : NodeExecutionId) = ⟨t.nodeKey, 0⟩ → g = holding source id :=
        fun h => hholding (hkey (NodeExecutionId.mk.inj h).1)
      refine Discipline.keeps_step hjoin fun _ _ => ?_
      have hconsume := @consumeSourceEvent_keeps t source owner inboxId ⟨target.nodeKey, 0⟩ (some id)
        command g (fun h other hother => Option.some.inj hother ▸ hjoin h)
      refine Discipline.keeps_bind.mpr (Discipline.keeps_mono hconsume ?_)
      intro r _ _
      cases r <;> trivial

end Discipline

section Run
open EachPosition

/-- The rank of the source was read, and this is its target. -/
structure Assigned (t : OrchestrationPlanNode) (tr : List (Sigma Stmt.Ans)) (x : Store)
    (source id : NodeExecutionId) : Prop where
  ranked : Ranked t tr source
  target : x.eachTarget t source = some id

/-- Every target that is held, recorded or given is the one its source has. -/
structure Consistent (t : OrchestrationPlanNode) (tr : List (Sigma Stmt.Ans)) (x : Store)
    (gs : List EachPosition) : Prop where
  source : ∀ source, Ranked t tr source →
    source.nodeKey ∈ t.dependencies ∧ (x.node? source).isSome
  untied : ∀ source other row row', other ≠ source → Ranked t tr source → Ranked t tr other →
    x.node? source = some row → x.node? other = some row' → ¬ row.ties row'
  read : ∀ source row, reading source row ∈ gs → row.id = source ∧
    ∃ row', x.node? source = some row' ∧ row'.stableOrder = row.stableOrder
  held : ∀ source id, holding source id ∈ gs → Assigned t tr x source id
  consumed : ∀ c ∈ x.consumptions, c.join = ⟨t.nodeKey, 0⟩ → ∀ id, c.target = some id →
    Assigned t tr x c.source id
  given : ∀ source id, Given t tr source id → Assigned t tr x source id

variable {t : OrchestrationPlanNode} {tr : List (Sigma Stmt.Ans)} {x y : Store}
  {gs gs' : List EachPosition} {gb ga : List EachPosition} {g : EachPosition}

theorem Assigned.move {source id : NodeExecutionId} (h : Assigned t tr x source id)
    (hxy : Stable t tr x y) : Assigned t tr y source id :=
  ⟨h.ranked, (hxy.target source h.ranked).trans h.target⟩

/-- The store may change as long as it is stable. -/
theorem Consistent.move (h : Consistent t tr x gs) (hxy : Stable t tr x y)
    (hconsumptions : y.consumptions = x.consumptions) : Consistent t tr y gs := by
  have hback : ∀ source row, Ranked t tr source → y.node? source = some row →
      ∃ row', x.node? source = some row' ∧ row.stableOrder = row'.stableOrder ∧ row.id = row'.id := by
    intro source row hranked hrow
    obtain ⟨row', hrow'⟩ := Option.isSome_iff_exists.mp (h.source source hranked).2
    obtain ⟨row'', hrow'', horder⟩ := hxy.row source row' hrow'
    rw [hrow] at hrow''
    cases hrow''
    exact ⟨row', hrow', horder, (Store.node?_id hrow).trans (Store.node?_id hrow').symm⟩
  constructor
  · intro source hranked
    obtain ⟨hkey, hsome⟩ := h.source source hranked
    obtain ⟨row, hrow⟩ := Option.isSome_iff_exists.mp hsome
    obtain ⟨row', hrow', _⟩ := hxy.row source row hrow
    exact ⟨hkey, Option.isSome_iff_exists.mpr ⟨row', hrow'⟩⟩
  · intro source other row row' hne hsource hother hrow hrow' hties
    obtain ⟨old, hold, horder, hid⟩ := hback source row hsource hrow
    obtain ⟨old', hold', horder', hid'⟩ := hback other row' hother hrow'
    apply h.untied source other old old' hne hsource hother hold hold'
    unfold NodeExecution.ties at hties ⊢
    rwa [← horder, ← horder', ← hid, ← hid']
  · intro source row hmem
    obtain ⟨hid, old, hold, horder⟩ := h.read source row hmem
    obtain ⟨new, hnew, hneworder⟩ := hxy.row source old hold
    exact ⟨hid, new, hnew, hneworder.trans horder⟩
  · exact fun source id hmem => (h.held source id hmem).move hxy
  · intro c hc hjoin id hid
    rw [hconsumptions] at hc
    exact (h.consumed c hc hjoin id hid).move hxy
  · exact fun source id hgiven => (h.given source id hgiven).move hxy

/-- The positions may change to ones that know no more. -/
theorem Consistent.weaken (h : Consistent t tr x gs)
    (hread : ∀ source row, reading source row ∈ gs' → row.id = source ∧
      ∃ row', x.node? source = some row' ∧ row'.stableOrder = row.stableOrder)
    (hheld : ∀ source id, holding source id ∈ gs' → Assigned t tr x source id) :
    Consistent t tr x gs' :=
  ⟨h.source, h.untied, hread, hheld, h.consumed, h.given⟩

theorem Consistent.sub (h : Consistent t tr x gs) (hsub : ∀ g ∈ gs', g ∈ gs ∨ g = idle) :
    Consistent t tr x gs' := by
  refine h.weaken ?_ ?_
  · intro source row hmem
    exact h.read source row ((hsub _ hmem).resolve_right nofun)
  · intro source id hmem
    exact h.held source id ((hsub _ hmem).resolve_right nofun)

/-- A statement that neither reads a rank nor gives a target. -/
theorem Consistent.trace (h : Consistent t tr x gs) {e : Sigma Stmt.Ans}
    (hrank : ∀ source, Ranked t (e :: tr) source → Ranked t tr source)
    (hgiven : ∀ source id, Given t (e :: tr) source id → Given t tr source id ∨
      Assigned t tr x source id) : Consistent t (e :: tr) x gs := by
  have hmore : ∀ {source}, Ranked t tr source → Ranked t (e :: tr) source :=
    fun ⟨rows, hrows⟩ => ⟨rows, List.mem_cons_of_mem _ hrows⟩
  have hlift : ∀ {source id}, Assigned t tr x source id → Assigned t (e :: tr) x source id :=
    fun h => ⟨hmore h.ranked, h.target⟩
  constructor
  · exact fun source hranked => h.source source (hrank source hranked)
  · exact fun source other row row' hne hsource hother =>
      h.untied source other row row' hne (hrank _ hsource) (hrank _ hother)
  · exact h.read
  · exact fun source id hmem => hlift (h.held source id hmem)
  · exact fun c hc hjoin id hid => hlift (h.consumed c hc hjoin id hid)
  · intro source id hmem
    rcases hgiven source id hmem with hold | hnew
    · exact hlift (h.given source id hold)
    · exact hlift hnew

theorem ranked_cons {s : Stmt} {a : s.Ans} (hs : ∀ source, s ≠ .readSources t source)
    {source : NodeExecutionId} (h : Ranked t (⟨s, a⟩ :: tr) source) : Ranked t tr source := by
  obtain ⟨rows, hrows⟩ := h
  rcases List.mem_cons.mp hrows with heq | hrows
  · exact absurd (congrArg Sigma.fst heq).symm (hs source)
  · exact ⟨rows, hrows⟩

theorem given_cons {s : Stmt} {a : s.Ans} (hs : ∀ source id, s ≠ .note ⟨t.nodeKey, 0⟩ source id)
    {source id : NodeExecutionId} (h : Given t (⟨s, a⟩ :: tr) source id) : Given t tr source id := by
  rcases List.mem_cons.mp h with heq | h
  · exact absurd (congrArg Sigma.fst heq).symm (hs source id)
  · exact h

theorem mem_middle {α : Type} {l₁ l₂ : List α} {a b b' : α} (h : a ∈ l₁ ++ b' :: l₂)
    (hb : b' = b ∨ a ≠ b') : a ∈ l₁ ++ b :: l₂ := by
  simp only [List.mem_append, List.mem_cons] at h ⊢
  rcases h with h | h | h
  · exact Or.inl h
  · exact Or.inr (Or.inl (h.trans (hb.resolve_right (fun hne => hne h))))
  · exact Or.inr (Or.inr h)

/-- A statement that reads no rank, gives no target and leaves the store stable. -/
theorem Consistent.quiet {s : Stmt} {a : s.Ans} {g' : EachPosition}
    (h : Consistent t tr x (gb ++ g :: ga)) (hrank : ∀ source, s ≠ .readSources t source)
    (hnote : ∀ source id, s ≠ .note ⟨t.nodeKey, 0⟩ source id) (hxy : Stable t tr x y)
    (hconsumptions : y.consumptions = x.consumptions) (hg' : g' = g ∨ g' = idle) :
    Consistent t (⟨s, a⟩ :: tr) y (gb ++ g' :: ga) := by
  have hmoved := (h.move hxy hconsumptions).trace (e := ⟨s, a⟩) (fun _ => ranked_cons hrank)
    (fun _ _ hgiven => Or.inl (given_cons hnote hgiven))
  refine hmoved.sub ?_
  intro other hother
  rcases hg' with rfl | rfl
  · exact Or.inl hother
  · by_cases hidle : other = idle
    · exact Or.inr hidle
    · exact Or.inl (mem_middle hother (Or.inr hidle))

/-- The own position is another one; the others stay. -/
theorem Consistent.replace {g' : EachPosition} (h : Consistent t tr x (gb ++ g :: ga))
    (hread : ∀ source row, g' = reading source row → row.id = source ∧
      ∃ row', x.node? source = some row' ∧ row'.stableOrder = row.stableOrder)
    (hheld : ∀ source id, g' = holding source id → Assigned t tr x source id) :
    Consistent t tr x (gb ++ g' :: ga) := by
  refine h.weaken ?_ ?_
  · intro source row hmem
    by_cases heq : g' = reading source row
    · exact hread source row heq
    · exact h.read source row (mem_middle hmem (Or.inr fun hsame => heq hsame.symm))
  · intro source id hmem
    by_cases heq : g' = holding source id
    · exact hheld source id heq
    · exact h.held source id (mem_middle hmem (Or.inr fun hsame => heq hsame.symm))

theorem consistent_readNode {id : NodeExecutionId} (h : Consistent t tr x (gb ++ g :: ga)) :
    eachPossible (.readNode id) (x.node? id) g ∧
      Consistent t (⟨.readNode id, x.node? id⟩ :: tr) x
        (gb ++ eachNext t (.readNode id) (x.node? id) g :: ga) := by
  have hquiet := h.quiet (s := .readNode id) (a := x.node? id) nofun nofun (.of_nodes rfl) rfl
    (Or.inl rfl)
  cases hrow : x.node? id with
  | none =>
    rw [hrow] at hquiet
    refine ⟨trivial, ?_⟩
    cases g <;> exact hquiet
  | some row =>
    rw [hrow] at hquiet
    have hid := Store.node?_id hrow
    have hreading : Consistent t (⟨.readNode id, some row⟩ :: tr) x
        (gb ++ reading id row :: ga) := by
      refine hquiet.replace ?_ nofun
      intro source other heq
      cases heq
      exact ⟨hid, row, hrow, rfl⟩
    refine ⟨hid, ?_⟩
    cases g with
    | idle => exact hreading
    | reading source other => exact hreading
    | holding source other => exact hquiet

theorem consistent_readConsumption {join source : NodeExecutionId} {a : Option Consumption}
    (ha : a = x.consumptions.find? fun row => row.join = join && row.source = source)
    (h : Consistent t tr x (gb ++ g :: ga)) :
    Consistent t (⟨.readConsumption join source, a⟩ :: tr) x
      (gb ++ eachNext t (.readConsumption join source) a g :: ga) := by
  have hquiet := h.quiet (s := .readConsumption join source) (a := a) nofun nofun (.of_nodes rfl) rfl
    (Or.inl rfl)
  cases a with
  | none => exact hquiet
  | some row =>
    obtain ⟨hjoin, hsource⟩ : row.join = join ∧ row.source = source := by
      simpa using List.find?_some ha.symm
    show Consistent t _ x (gb ++ (if join = ⟨t.nodeKey, 0⟩ then _ else g) :: ga)
    split_ifs with hown
    · cases htarget : row.target with
      | none => exact hquiet
      | some id =>
        refine hquiet.replace nofun ?_
        intro source' id' heq
        cases heq
        have hrow := hquiet.consumed row (List.mem_of_find?_eq_some ha.symm) (hjoin.trans hown) id
          htarget
        rwa [hsource] at hrow
    · exact hquiet

theorem consistent_rank {source : NodeExecutionId} {row : NodeExecution}
    (h : Consistent t tr x (gb ++ reading source row :: ga))
    (hkey : source.nodeKey ∈ t.dependencies)
    (htie : ∀ other old old', other ≠ source → Ranked t tr other →
      x.node? source = some old → x.node? other = some old' → ¬ old.ties old') :
    Consistent t (⟨.readSources t source, x.nodes⟩ :: tr) x
      (gb ++ holding source ⟨t.nodeKey, eachRank t.dependencies row x.nodes⟩ :: ga) := by
  obtain ⟨hid, now, hnow, horder⟩ := h.read source row (by simp)
  have hnew : ∀ other, Ranked t (⟨.readSources t source, x.nodes⟩ :: tr) other →
      other = source ∨ Ranked t tr other := by
    rintro other ⟨rows, hrows⟩
    rcases List.mem_cons.mp hrows with heq | hrows
    · exact Or.inl (Stmt.readSources.inj (congrArg Sigma.fst heq)).2
    · exact Or.inr ⟨rows, hrows⟩
  have hself : Assigned t (⟨.readSources t source, x.nodes⟩ :: tr) x source
      ⟨t.nodeKey, eachRank t.dependencies row x.nodes⟩ := by
    refine ⟨⟨x.nodes, List.mem_cons_self⟩, ?_⟩
    have hsame : row.ties now := ⟨horder.symm, by rw [hid, Store.node?_id hnow]⟩
    unfold Store.eachTarget
    rw [hnow, Option.map_some, eachRank_ties hsame]
  have hlift : ∀ {other id}, Assigned t tr x other id →
      Assigned t (⟨.readSources t source, x.nodes⟩ :: tr) x other id :=
    fun ⟨⟨rows, hrows⟩, htarget⟩ => ⟨⟨rows, List.mem_cons_of_mem _ hrows⟩, htarget⟩
  have hbase : Consistent t (⟨.readSources t source, x.nodes⟩ :: tr) x
      (gb ++ reading source row :: ga) := by
    constructor
    · intro other hother
      rcases hnew other hother with rfl | hother
      · exact ⟨hkey, Option.isSome_iff_exists.mpr ⟨now, hnow⟩⟩
      · exact h.source other hother
    · intro a b ra rb hne ha hb hra hrb hties
      rcases hnew a ha with rfl | hold
      · exact htie b ra rb hne ((hnew b hb).resolve_left hne) hra hrb hties
      · rcases hnew b hb with rfl | hold'
        · exact htie a rb ra hne.symm hold hrb hra ⟨hties.1.symm, hties.2.symm⟩
        · exact h.untied a b ra rb hne hold hold' hra hrb hties
    · exact h.read
    · exact fun other id hmem => hlift (h.held other id hmem)
    · exact fun c hc hjoin id hid => hlift (h.consumed c hc hjoin id hid)
    · exact fun other id hgiven => hlift (h.given other id (given_cons (fun _ _ heq => by cases heq) hgiven))
  refine hbase.replace nofun ?_
  intro other id heq
  cases heq
  exact hself

theorem consistent_consume {inboxId : ℕ} {join source : NodeExecutionId}
    {target : Option NodeExecutionId} {event : OrchestrationEventEnvelope}
    {followUp : Option (ℕ × AgentRunPortCommandEnvelope)}
    {a : Except OrchestrationPersistenceError Bool} (h : Consistent t tr x (gb ++ g :: ga))
    (hg : join = ⟨t.nodeKey, 0⟩ → ∀ id, target = some id → g = holding source id)
    (hexec : (a, y) = committed x (x.consumeWithEffects inboxId join source target event followUp)) :
    Consistent t (⟨.consume inboxId join source target event followUp, a⟩ :: tr) y
      (gb ++ g :: ga) := by
  have hquiet : ∀ z : Store, z.nodes = x.nodes → z.consumptions = x.consumptions →
      Consistent t (⟨.consume inboxId join source target event followUp, a⟩ :: tr) z
        (gb ++ g :: ga) :=
    fun z hnodes hconsumptions => h.quiet nofun nofun (.of_nodes hnodes) hconsumptions (Or.inl rfl)
  rcases committed_cases hexec with ⟨error, _, rfl, rfl⟩ | ⟨inserted, hok, rfl⟩
  · exact hquiet y rfl rfl
  · rcases consumeWithEffects_cases hok with ⟨_, hrecord⟩ | ⟨_, x₁, x₂, apply, hrecord, happend, hfollow⟩
    · obtain ⟨row, _, ⟨_, _, rfl⟩ | ⟨hfalse, _⟩⟩ := recordConsumption_ok hrecord
      · exact hquiet _ rfl rfl
      · cases hfalse
    · obtain ⟨row, ⟨hjoin, hsource, htarget⟩, ⟨hfalse, _⟩ | ⟨_, rfl⟩⟩ := recordConsumption_ok hrecord
      · cases hfalse
      · obtain ⟨hnodes, hconsumptions⟩ :
            y.nodes = x.nodes ∧ y.consumptions = x.consumptions ++ [row] := by
          obtain ⟨outbox, rfl⟩ := enqueueFollowUp_ok hfollow
          rcases appendAndProject_ok happend with ⟨_, _, rfl⟩ | ⟨state, _, rfl⟩
          · exact ⟨rfl, rfl⟩
          · exact ⟨rfl, rfl⟩
        have hbase := hquiet { y with consumptions := x.consumptions } hnodes rfl
        have hlift : ∀ {tr source id}, Assigned t tr { y with consumptions := x.consumptions } source
            id → Assigned t tr y source id := fun h => ⟨h.ranked, h.target⟩
        refine ⟨hbase.source, hbase.untied, hbase.read, fun _ _ h => hlift (hbase.held _ _ h), ?_,
          fun _ _ h => hlift (hbase.given _ _ h)⟩
        intro c hc hcjoin id hid
        rw [hconsumptions] at hc
        rcases List.mem_append.mp hc with hc | hc
        · exact hlift (hbase.consumed c hc hcjoin id hid)
        · obtain rfl := List.mem_singleton.mp hc
          have hown := hg (hjoin.symm.trans hcjoin) id (htarget.symm.trans hid)
          rw [hsource]
          exact hlift (hbase.held source id (by simp [hown]))

/-- A statement of a call keeps the targets consistent. -/
theorem consistent_act {s : Stmt} {a : s.Ans} (h : Consistent t tr x (gb ++ g :: ga))
    (hs : eachAllowed t s g) (hexec : s.Exec x a y)
    (horder : ∀ id stableOrder, s = .persistNode id stableOrder → x.node? id = none →
      id.nodeKey ∈ t.dependencies → ∀ source row, Ranked t tr source →
      x.node? source = some row → ¬ NodeExecution.precedes ⟨id, stableOrder, .pending⟩ row)
    (htie : ∀ source, s = .readSources t source → ∀ other row row', other ≠ source →
      Ranked t tr other → x.node? source = some row → x.node? other = some row' →
      ¬ row.ties row') :
    eachPossible s a g ∧ Consistent t (⟨s, a⟩ :: tr) y (gb ++ eachNext t s a g :: ga) := by
  cases s with
  | readNode id =>
    cases hexec
    exact consistent_readNode h
  | readConsumption join source =>
    obtain ⟨ha, rfl⟩ := Prod.mk.inj hexec
    exact ⟨trivial, consistent_readConsumption ha h⟩
  | readSources target source =>
    cases hexec
    refine ⟨trivial, ?_⟩
    by_cases htarget : target = t
    · subst htarget
      obtain ⟨hkey, row, rfl⟩ := hs rfl
      have hranked := consistent_rank h hkey (htie source rfl)
      have hnext : eachNext target (.readSources target source) x.nodes (reading source row) =
          holding source ⟨target.nodeKey, eachRank target.dependencies row x.nodes⟩ := if_pos rfl
      rw [← hnext] at hranked
      exact hranked
    · refine h.quiet ?_ nofun (.of_nodes rfl) rfl ?_
      · intro other heq
        exact htarget (Stmt.readSources.inj heq).1
      · cases g with
        | reading other row => exact Or.inr (if_neg htarget)
        | _ => exact Or.inl rfl
  | note join source id =>
    cases hexec
    refine ⟨trivial, h.trace (fun _ => ranked_cons fun _ heq => by cases heq) ?_⟩
    intro other id' hgiven
    rcases List.mem_cons.mp hgiven with heq | hgiven
    · obtain ⟨hjoin, rfl, rfl⟩ := Stmt.note.inj (congrArg Sigma.fst heq)
      have hown := hs hjoin.symm
      exact Or.inr (h.held _ _ (by simp [hown]))
    · exact Or.inl hgiven
  | persistNode id stableOrder =>
    obtain ⟨_, rfl⟩ := Prod.mk.inj hexec
    refine ⟨trivial, h.quiet nofun nofun ?_ ?_ (Or.inl rfl)⟩
    · exact .of_persistNode (fun source hranked => (h.source source hranked).2)
        (horder id stableOrder rfl)
    · show (x.persistNode id stableOrder).consumptions = x.consumptions
      unfold Store.persistNode
      split_ifs <;> rfl
  | consume inboxId join source target event followUp =>
    exact ⟨trivial, consistent_consume h hs hexec⟩
  | readForConsumption inboxId join =>
    obtain ⟨_, rfl⟩ := Prod.mk.inj hexec
    exact ⟨trivial, h.quiet nofun nofun (.of_nodes rfl) rfl (Or.inl rfl)⟩
  | now =>
    cases hexec
    exact ⟨trivial, h.quiet nofun nofun (.of_nodes rfl) rfl (Or.inl rfl)⟩
  | newId =>
    cases hexec
    exact ⟨trivial, h.quiet nofun nofun (.of_nodes rfl) rfl (Or.inl rfl)⟩
  | acquire owner now =>
    refine ⟨trivial, ?_⟩
    rcases acquire_cases hexec with ⟨_, rfl⟩ | ⟨_, _, rfl⟩
    · exact h.quiet nofun nofun (.of_nodes rfl) rfl (Or.inl rfl)
    · exact h.quiet nofun nofun (.of_nodes rfl) rfl (Or.inl rfl)
  | release owner =>
    obtain ⟨_, rfl⟩ := Prod.mk.inj hexec
    have hsame : (x.release owner).2.nodes = x.nodes ∧
        (x.release owner).2.consumptions = x.consumptions := by
      unfold Store.release
      split_ifs <;> exact ⟨rfl, rfl⟩
    exact ⟨trivial, h.quiet nofun nofun (.of_nodes hsame.1) hsame.2 (Or.inl rfl)⟩
  | _ => exact hs.elim

theorem EachRun.consistent {w : Calls} (ht : t.join = .each) (hx : x.consumptions = [])
    (h : EachRun t (fun w w' => InOrder t w w' ∧ Untied t w w') (.start x) w) :
    ∃ gs, Positioned (eachDiscipline t) w.threads gs ∧ Consistent t w.trace w.state gs := by
  have hstart : Consistent t [] x [] := by
    refine ⟨?_, ?_, nofun, nofun, ?_, ?_⟩
    · exact fun source ⟨_, hmem⟩ => (List.not_mem_nil hmem).elim
    · exact fun source other row row' _ ⟨_, hmem⟩ => (List.not_mem_nil hmem).elim
    · exact fun c hc => (List.not_mem_nil (hx ▸ hc)).elim
    · exact fun source id hmem => (List.not_mem_nil hmem).elim
  refine @StepsWhen.positions _ _ _ _ _ _ _ _ _ (eachDiscipline t) (Consistent t) idle
    (fun _ => eachCall_follows ht) ?_ ?_ ?_ ?_ _ _ h [] .nil hstart
  · intro tr x gs h
    exact h.sub fun g hg => (List.mem_cons.mp hg).symm
  · rintro tr x y before after s k a gb g ga _ _ hg h hexec ⟨horder, htie⟩
    refine consistent_act h hg.1 hexec ?_ ?_
    · rintro id stableOrder rfl hnone hkey
      exact horder id stableOrder rfl hnone hkey
    · rintro source rfl
      exact htie source a rfl
  · intro tr x before after p gb g ga _ _ _ h _
    refine h.sub fun other hother => Or.inl ?_
    rcases List.mem_append.mp hother with hother | hother
    · exact List.mem_append_left _ hother
    · exact List.mem_append_right _ (List.mem_cons_of_mem _ hother)
  · exact fun tr x y gs h hxy => h.move (.of_sameRows hxy) hxy.consumptions

/-- Distinct sources have distinct targets. -/
theorem Consistent.injective (h : Consistent t tr x gs) {source other id : NodeExecutionId}
    (hsource : Assigned t tr x source id) (hother : Assigned t tr x other id) : source = other := by
  by_contra hne
  obtain ⟨row, hrow, hid⟩ := Option.map_eq_some_iff.mp hsource.target
  obtain ⟨row', hrow', hid'⟩ := Option.map_eq_some_iff.mp hother.target
  have hranks : eachRank t.dependencies row x.nodes = eachRank t.dependencies row' x.nodes :=
    (NodeExecutionId.mk.inj (hid.trans hid'.symm)).2
  have hkey : row.id.nodeKey ∈ t.dependencies :=
    Store.node?_id hrow ▸ (h.source source hsource.ranked).1
  have hkey' : row'.id.nodeKey ∈ t.dependencies :=
    Store.node?_id hrow' ▸ (h.source other hother.ranked).1
  have huntied := h.untied source other row row' (Ne.symm hne) hsource.ranked hother.ranked hrow hrow'
  rcases precedes_of_not_ties huntied with hbefore | hafter
  · have hlt := eachRank_lt (Store.node?_mem hrow) hkey hbefore
    omega
  · have hlt := eachRank_lt (Store.node?_mem hrow') hkey' hafter
    omega

end Run

/-- While executions are created in order and no ranks tie, calls give two sources one target exactly
when the sources are one. An execution that is created out of order moves the target of a source, and
sources that tie have one target. -/
theorem each_targets_stable {t : OrchestrationPlanNode} (ht : t.join = .each) {x : Store}
    (hx : x.consumptions = []) :
    (∀ w, EachRun t (fun w w' => InOrder t w w' ∧ Untied t w w') (.start x) w →
      ∀ source other id id', Given t w.trace source id → Given t w.trace other id' →
        (id = id' ↔ source = other)) ∧
    (∀ w w', Step Stmt.Exec SameRows (EachCall t) (fun _ _ => True) w w' → ¬ InOrder t w w' →
      ∃ source, Ranked t w.trace source ∧
        w'.state.eachTarget t source ≠ w.state.eachTarget t source) ∧
    ∀ w w', Step Stmt.Exec SameRows (EachCall t) (fun _ _ => True) w w' → ¬ Untied t w w' →
      ∃ source other, source ≠ other ∧ Ranked t w'.trace source ∧ Ranked t w'.trace other ∧
        w'.state.eachTarget t source = w'.state.eachTarget t other := by
  refine ⟨?_, ?_, ?_⟩
  · intro w h source other id id' hsource hother
    obtain ⟨gs, _, hconsistent⟩ := h.consistent ht hx
    have hassigned := hconsistent.given source id hsource
    have hassigned' := hconsistent.given other id' hother
    constructor
    · rintro rfl
      exact hconsistent.injective hassigned hassigned'
    · rintro rfl
      exact Option.some.inj (hassigned.target.symm.trans hassigned'.target)
  · intro w w' hstep horder
    unfold InOrder at horder
    push Not at horder
    obtain ⟨id, stableOrder, htrace, hnone, hkey, source, row, hranked, hrow, hprecedes⟩ := horder
    refine ⟨source, hranked, ?_⟩
    cases hstep with
    | spawn _ => exact absurd htrace List.ne_cons_self
    | drop => exact absurd htrace List.ne_cons_self
    | env _ => exact absurd htrace List.ne_cons_self
    | @act tr x y before after s k a _ hs =>
      obtain rfl : s = .persistNode id stableOrder := congrArg Sigma.fst (List.cons.inj htrace).1
      obtain ⟨_, rfl⟩ := Prod.mk.inj hs
      have hnodes : (x.persistNode id stableOrder).nodes = x.nodes ++ [⟨id, stableOrder, .pending⟩] := by
        unfold Store.persistNode
        rw [if_neg (by simp [show x.node? id = none from hnone])]
      show (x.persistNode id stableOrder).eachTarget t source ≠ x.eachTarget t source
      unfold Store.eachTarget
      rw [show x.node? source = some row from hrow,
        Store.persistNode_node? id source stableOrder hrow, hnodes]
      intro hsame
      have hrank := (NodeExecutionId.mk.inj (Option.some.inj hsame)).2
      exact eachRank_append_iff.mp hrank ⟨hkey, hprecedes⟩
  · intro w w' hstep htie
    unfold Untied at htie
    push Not at htie
    obtain ⟨source, rows, htrace, other, row, row', hne, hranked, hrow, hrow', hties⟩ := htie
    have hother : Ranked t w'.trace other := by
      obtain ⟨rows', hrows'⟩ := hranked
      exact ⟨rows', htrace ▸ List.mem_cons_of_mem _ hrows'⟩
    refine ⟨source, other, hne.symm, ⟨rows, htrace ▸ List.mem_cons_self⟩, hother, ?_⟩
    cases hstep with
    | spawn _ => exact absurd htrace List.ne_cons_self
    | drop => exact absurd htrace List.ne_cons_self
    | env _ => exact absurd htrace List.ne_cons_self
    | @act tr x y before after s k a _ hs =>
      obtain rfl : s = .readSources t source := congrArg Sigma.fst (List.cons.inj htrace).1
      obtain ⟨_, rfl⟩ := Prod.mk.inj hs
      show y.eachTarget t source = y.eachTarget t other
      unfold Store.eachTarget
      rw [show y.node? source = some row from hrow, show y.node? other = some row' from hrow',
        Option.map_some, Option.map_some, eachRank_ties hties]

section Fixture

/-- An Each join behind two nodes. -/
def eachJoin : OrchestrationPlanNode :=
  ⟨"join", 2, ["a", "b"], .each, .allowPartial, .continue, .parallel⟩

/-- The run of the join after its start. -/
def eachStore : Store where
  plan := [⟨"a", 0, [], .all, .allowPartial, .continue, .parallel⟩,
    ⟨"b", 1, [], .all, .allowPartial, .continue, .parallel⟩, eachJoin]
  state := ⟨.running, false, 1, none, 0⟩
  events := []
  nodes := [⟨⟨"a", 0⟩, 0, .succeeded⟩, ⟨⟨"b", 0⟩, 1, .succeeded⟩, ⟨⟨"join", 0⟩, 2, .pending⟩]
  links := []
  outbox := []
  inbox := []
  consumptions := []
  lease := none
  agents := fun _ => none
  clock := 1
  nextId := 1

/-- The results of both sources were received. -/
def receivedStore : Store := { eachStore with
  links := [⟨⟨"a", 0⟩, 1, .caller "a"⟩, ⟨⟨"b", 0⟩, 2, .caller "b"⟩]
  inbox := [⟨10, ⟨100, 1, 5, some ⟨"a", 0⟩, .lifecycleChanged .succeeded⟩, .processing, 1⟩,
    ⟨11, ⟨101, 2, 7, some ⟨"b", 0⟩, .lifecycleChanged .succeeded⟩, .processing, 2⟩] }

def evaluateRow (inboxId : ℕ) (source : NodeExecutionId) : Program Unit :=
  evaluateSource "service" inboxId eachJoin source none

def evaluateFirst (source : NodeExecutionId) : Program Unit := evaluateRow 0 source

theorem evaluateRow_eachCall {inboxId : ℕ} {source : NodeExecutionId}
    (h : source.nodeKey ∈ ["a", "b"]) : EachCall eachJoin (evaluateRow inboxId source) :=
  .evaluate "service" inboxId eachJoin source none (fun _ => rfl) h

theorem start_eachRun {x : Store} {threads : List (Program Unit)}
    (h : ∀ p ∈ threads, EachCall eachJoin p) :
    EachRun eachJoin (fun w w' => InOrder eachJoin w w' ∧ Untied eachJoin w w') (.start x)
      ⟨[], x, threads⟩ := by
  refine stepsWhen_spawn (fun tr x ts p => ⟨?_, ?_⟩) h
  · exact fun id stableOrder htrace => absurd htrace List.ne_cons_self
  · exact fun source rows htrace => absurd htrace List.ne_cons_self

/-- The targets that were given, newest first. -/
def notes (tr : List (Sigma Stmt.Ans)) : List (NodeExecutionId × NodeExecutionId × NodeExecutionId) :=
  tr.filterMap fun
    | ⟨.note join source id, _⟩ => some (join, source, id)
    | _ => none

theorem given_of_notes {tr : List (Sigma Stmt.Ans)} {source id : NodeExecutionId}
    (h : (⟨"join", 0⟩, source, id) ∈ notes tr) : Given eachJoin tr source id := by
  obtain ⟨e, hmem, hnote⟩ := List.mem_filterMap.mp h
  split at hnote
  next =>
    cases hnote
    exact hmem
  next => cases hnote

/-- Two evaluations of `b` around the creation and the evaluation of the second iteration of `a`. -/
def lateIteration : List (Program Unit) :=
  [evaluateFirst ⟨"b", 0⟩, do let _ ← persistIdentityBeforeDispatch ⟨"a", 1⟩ 0,
    evaluateFirst ⟨"a", 1⟩, evaluateFirst ⟨"b", 0⟩]

/-- The second iteration of `a` is created after `b` was given its target. It is given the same one,
and `b` another one when it is evaluated again. -/
theorem each_target_taken : ∃ w : Calls,
    EachRun eachJoin (fun _ _ => True) (.start eachStore) w ∧
      Given eachJoin w.trace ⟨"b", 0⟩ ⟨"join", 1⟩ ∧ Given eachJoin w.trace ⟨"a", 1⟩ ⟨"join", 1⟩ ∧
      Given eachJoin w.trace ⟨"b", 0⟩ ⟨"join", 2⟩ := by
  have hstart : EachRun eachJoin (fun _ _ => True) (.start eachStore)
      ⟨[], eachStore, lateIteration⟩ := by
    refine stepsWhen_spawn (fun _ _ _ _ => trivial) ?_
    intro p hp
    simp only [lateIteration, List.mem_cons, List.not_mem_nil, or_false] at hp
    rcases hp with rfl | rfl | rfl | rfl
    · exact evaluateRow_eachCall (by simp)
    · exact .create ⟨"a", 1⟩ 0
    · exact evaluateRow_eachCall (by simp)
    · exact evaluateRow_eachCall (by simp)
  have hnotes : (follow (Stmt.unless fun _ _ => false)
      [0, 0, 0, 0, 0, 0, 1, 1, 2, 2, 2, 2, 2, 2, 3, 3, 3, 3, 3, 3]
      ⟨[], eachStore, lateIteration⟩).map (fun w => notes w.trace) =
      some [(⟨"join", 0⟩, ⟨"b", 0⟩, ⟨"join", 2⟩), (⟨"join", 0⟩, ⟨"a", 1⟩, ⟨"join", 1⟩),
        (⟨"join", 0⟩, ⟨"b", 0⟩, ⟨"join", 1⟩)] := by decide +kernel
  obtain ⟨w, hw, hgiven⟩ := Option.map_eq_some_iff.mp hnotes
  refine ⟨w, hstart.trans (follow_stepsWhen Stmt.unless_exec (fun _ _ _ _ _ _ _ _ _ => trivial) hw),
    ?_, ?_, ?_⟩
  · exact given_of_notes (by simp [hgiven])
  · exact given_of_notes (by simp [hgiven])
  · exact given_of_notes (by simp [hgiven])

instance (row source : NodeExecution) : Decidable (row.ties source) :=
  inferInstanceAs (Decidable (_ ∧ _))

/-- The statement creates an execution of a dependency, or reads ranks although rows tie. -/
def Stmt.disturbs : Stmt → Store → Bool
  | .persistNode id _, x => (x.node? id).isNone && eachJoin.dependencies.contains id.nodeKey
  | .readSources .., x => !decide (x.nodes.Pairwise fun row row' => ¬ row.ties row')
  | _, _ => false

theorem ordered_of_accepted {s : Stmt} {tr : List (Sigma Stmt.Ans)} {x y : Store}
    {threads threads' : List (Program Unit)} {a : s.Ans}
    (h : Stmt.unless Stmt.disturbs s x = some (a, y)) :
    InOrder eachJoin ⟨tr, x, threads⟩ ⟨⟨s, a⟩ :: tr, y, threads'⟩ ∧
      Untied eachJoin ⟨tr, x, threads⟩ ⟨⟨s, a⟩ :: tr, y, threads'⟩ := by
  have hquiet := Stmt.not_refused h
  constructor
  · intro id stableOrder htrace hnone hkey
    obtain rfl : s = .persistNode id stableOrder := congrArg Sigma.fst (List.cons.inj htrace).1
    simp only [Stmt.disturbs, show x.node? id = none from hnone, Option.isNone_none, Bool.true_and,
      List.contains_eq_mem, decide_eq_false_iff_not] at hquiet
    exact absurd hkey hquiet
  · intro source rows htrace other row row' hne _ hrow hrow' hties
    obtain rfl : s = .readSources eachJoin source := congrArg Sigma.fst (List.cons.inj htrace).1
    simp only [Stmt.disturbs, Bool.not_eq_false', decide_eq_true_eq] at hquiet
    have hrows : row ≠ row' := by
      rintro rfl
      exact hne ((Store.node?_id hrow').symm.trans (Store.node?_id hrow))
    have : Std.Symm fun row row' : NodeExecution => ¬ row.ties row' :=
      ⟨fun a b hab hba => hab ⟨hba.1.symm, hba.2.symm⟩⟩
    exact hquiet.forall (Store.node?_mem hrow) (Store.node?_mem hrow') hrows hties

/-- The sources are evaluated one after the other and consumed, one of them evaluated again. -/
theorem each_targets_stable_consumed : ∃ w : Calls,
    EachRun eachJoin (fun w w' => InOrder eachJoin w w' ∧ Untied eachJoin w w') (.start receivedStore)
      w ∧
      notes w.trace = [(⟨"join", 0⟩, ⟨"b", 0⟩, ⟨"join", 1⟩), (⟨"join", 0⟩, ⟨"a", 0⟩, ⟨"join", 0⟩),
        (⟨"join", 0⟩, ⟨"b", 0⟩, ⟨"join", 1⟩)] ∧
      w.state.consumptions.map (fun c => (c.source, c.target)) =
        [(⟨"b", 0⟩, some ⟨"join", 1⟩), (⟨"a", 0⟩, some ⟨"join", 0⟩)] ∧
      w.state.inbox.map (·.status) = [.consumed, .consumed] ∧
      ((⟨"join", 0⟩ : NodeExecutionId) = ⟨"join", 1⟩ ↔ (⟨"a", 0⟩ : NodeExecutionId) = ⟨"b", 0⟩) := by
  have hstart : EachRun eachJoin (fun w w' => InOrder eachJoin w w' ∧ Untied eachJoin w w')
      (.start receivedStore) ⟨[], receivedStore,
        [evaluateRow 11 ⟨"b", 0⟩, evaluateRow 10 ⟨"a", 0⟩, evaluateRow 11 ⟨"b", 0⟩]⟩ := by
    refine start_eachRun ?_
    intro p hp
    simp only [List.mem_cons, List.not_mem_nil, or_false] at hp
    rcases hp with rfl | rfl | rfl
    · exact evaluateRow_eachCall (by simp)
    · exact evaluateRow_eachCall (by simp)
    · exact evaluateRow_eachCall (by simp)
  -- The second evaluation of `b` reads its target from what was consumed.
  have hends : (follow (Stmt.unless Stmt.disturbs)
      (List.replicate 13 0 ++ List.replicate 13 1 ++ List.replicate 3 2) ⟨[], receivedStore,
        [evaluateRow 11 ⟨"b", 0⟩, evaluateRow 10 ⟨"a", 0⟩, evaluateRow 11 ⟨"b", 0⟩]⟩).map
      (fun w => (notes w.trace, w.state.consumptions.map (fun c => (c.source, c.target)),
        w.state.inbox.map (·.status))) =
      some ([(⟨"join", 0⟩, ⟨"b", 0⟩, ⟨"join", 1⟩), (⟨"join", 0⟩, ⟨"a", 0⟩, ⟨"join", 0⟩),
        (⟨"join", 0⟩, ⟨"b", 0⟩, ⟨"join", 1⟩)],
        [(⟨"b", 0⟩, some ⟨"join", 1⟩), (⟨"a", 0⟩, some ⟨"join", 0⟩)], [.consumed, .consumed]) := by
    decide +kernel
  obtain ⟨w, hw, hgiven⟩ := Option.map_eq_some_iff.mp hends
  obtain ⟨hnotes, hconsumed⟩ := Prod.mk.inj hgiven
  obtain ⟨hconsumptions, hinbox⟩ := Prod.mk.inj hconsumed
  have hrun := hstart.trans
    (follow_stepsWhen Stmt.unless_exec (fun _ _ _ _ _ _ _ _ hstep => ordered_of_accepted hstep) hw)
  refine ⟨w, hrun, hnotes, hconsumptions, hinbox, ?_⟩
  exact (each_targets_stable rfl rfl).1 w hrun _ _ _ _ (given_of_notes (by simp [hnotes]))
    (given_of_notes (by simp [hnotes]))

end Fixture

end VibeKanban.Orchestration
