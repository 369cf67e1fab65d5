import VibeKanban.Lib.Dag
import VibeKanban.Runtime.Db
import VibeKanban.Workflow.Ready

/-! The board of a run: its own executions over the results it reuses, what the successes on it
ask for, and the balance between the two that every step of a run keeps. -/
namespace VibeKanban.Runtime
open Lib Workflow Relation

/-- The executions of a run, the results it reuses and the nodes it works on. -/
structure Board where
  own : List NodeExecutionSnapshot
  reused : List NodeExecutionSnapshot
  affected : Option (List String)

/-- A change of an execution: terminal ones keep everything and none becomes pending. -/
structure Grows (e e' : NodeExecutionSnapshot) : Prop where
  nodeId : e'.nodeId = e.nodeId
  iteration : e'.iteration = e.iteration
  terminal : nodeTerminal e.status = true → e' = e
  pending : e'.status = .pending → e' = e

theorem Grows.refl (e : NodeExecutionSnapshot) : Grows e e := ⟨rfl, rfl, fun _ => rfl, fun _ => rfl⟩

/-- The open execution of a node and iteration, which a write may change. -/
def openAt (nodeId : String) (iteration : ℤ) (e : NodeExecutionSnapshot) : Bool :=
  e.nodeId == nodeId && e.iteration == iteration && !nodeTerminal e.status

theorem openAt_iff {nodeId : String} {iteration : ℤ} {e : NodeExecutionSnapshot} :
    openAt nodeId iteration e = true ↔
      e.nodeId = nodeId ∧ e.iteration = iteration ∧ nodeTerminal e.status = false := by
  simp [openAt, and_assoc]

/-- A write that sets the status and keeps the key. -/
structure Writes (status : NodeExecutionStatus)
    (f : NodeExecutionSnapshot → NodeExecutionSnapshot) : Prop where
  nodeId : ∀ e, (f e).nodeId = e.nodeId
  iteration : ∀ e, (f e).iteration = e.iteration
  status : ∀ e, (f e).status = status

namespace Board

def inScope (b : Board) (id : String) : Bool := b.affected.all fun ids => ids.contains id

/-- The executions of a node that count against what is asked for. -/
def live (b : Board) (id : String) : ℕ :=
  b.own.countP fun e => e.nodeId == id && decide (e.status ≠ .skipped)

def done (b : Board) (id : String) : ℕ :=
  b.own.countP fun e => e.nodeId == id && decide (e.status = .succeeded)

def put (b : Board) (nodeId : String) (iteration : ℤ)
    (f : NodeExecutionSnapshot → NodeExecutionSnapshot) : Board :=
  { b with own := updateWhere (openAt nodeId iteration) f b.own }

def insert (b : Board) (nodeId : String) (iteration : ℤ) : Board :=
  { b with own := b.own ++ [⟨nodeId, iteration, .pending, none, none⟩] }

/-- Every execution of a board grows, and the rest stays. -/
structure Grown (b b' : Board) : Prop where
  own : List.Forall₂ Grows b.own b'.own
  reused : b'.reused = b.reused
  affected : b'.affected = b.affected

section
variable (fromStr : String → Option Json) (graph : WorkflowGraph)

/-- The executions of a node that the successes on the board ask for. -/
def demand (b : Board) (id : String) : ℕ :=
  ((incomingEdges graph id).map fun edge =>
    succeededTriggerCountForEdge fromStr graph edge (b.own ++ b.reused)).sum

/-- What a run never changes: the reused results are successes of nodes it does not work on, and
it works on everything downstream of a node it works on. -/
structure Framed (b : Board) : Prop where
  reused : ∀ e ∈ b.reused, e.status = .succeeded ∧ b.inScope e.nodeId = false
  closed : ∀ a c, graph.Edge a c → b.inScope a = true → b.inScope c = true

/-- Every node has at most as many executions as its sources ask for, or a first one; nothing has
begun that was not asked for. -/
structure Balanced (start : String) (b : Board) : Prop where
  keys : (b.own.map fun e => (e.nodeId, e.iteration)).Nodup
  known : ∀ e ∈ b.own, e.nodeId ∈ graph.nodeIds ∧ b.inScope e.nodeId = true
  first : ∀ e ∈ b.own, e.nodeId = start → e.iteration = 0
  clean : ∀ e ∈ b.own, e.status ≠ .failed ∧ e.status ≠ .cancelled
  plain : (∀ node ∈ graph.nodes, node.kind ≠ .condition) → ∀ e ∈ b.own, e.status ≠ .skipped
  fed : ∀ e ∈ b.own, e.status ≠ .pending → e.status ≠ .skipped →
    e.nodeId = start ∨ 0 < b.demand fromStr graph e.nodeId
  balance : ∀ id, b.live id ≤ max 1 (b.demand fromStr graph id)

/-- A node from which work can still come: it is being executed, it is ready, or another execution
of it is asked for. -/
def Lively (start : String) (b : Board) (id : String) : Prop :=
  (∃ e ∈ b.own, e.nodeId = id ∧ nodeActive e.status = true) ∨
  ((id = start ∨ 0 < b.demand fromStr graph id) ∧
    ∃ e ∈ b.own, e.nodeId = id ∧ e.status = .pending) ∨
  (b.inScope id = true ∧ b.live id < b.demand fromStr graph id)

/-- A node that is downstream of a lively one. -/
def Reached (start : String) (b : Board) (id : String) : Prop :=
  ∃ u, b.Lively fromStr graph start u ∧ ReflTransGen graph.Edge u id

/-- Every pending execution, those of the nodes in `left` aside, is downstream of a lively node. -/
def Supported (start : String) (left : List String) (b : Board) : Prop :=
  ∀ e ∈ b.own, e.status = .pending → e.nodeId ∈ left ∨ b.Reached fromStr graph start e.nodeId

end

variable {fromStr : String → Option Json} {graph : WorkflowGraph} {start : String} {b : Board}

section Put
variable {nodeId : String} {iteration : ℤ} {f : NodeExecutionSnapshot → NodeExecutionSnapshot}
  {status : NodeExecutionStatus}

theorem put_grown (hf : Writes status f) (hstatus : status ≠ .pending) :
    b.Grown (b.put nodeId iteration f) := by
  refine ⟨forall₂_updateWhere Grows.refl fun e _ hp => ?_, rfl, rfl⟩
  have hopen := (openAt_iff.mp hp).2.2
  refine ⟨hf.nodeId e, hf.iteration e, fun ht => ?_, fun hpending => ?_⟩
  · rw [ht] at hopen
    cases hopen
  · rw [hf.status] at hpending
    exact absurd hpending hstatus

theorem mem_put {e : NodeExecutionSnapshot} (h : e ∈ (b.put nodeId iteration f).own) :
    (∃ x ∈ b.own, openAt nodeId iteration x = true ∧ e = f x) ∨
      (e ∈ b.own ∧ openAt nodeId iteration e = false) := mem_updateWhere.mp h

theorem put_eq_self (h : ∀ e ∈ b.own, openAt nodeId iteration e = false) :
    b.put nodeId iteration f = b := by
  have hown : updateWhere (openAt nodeId iteration) f b.own = b.own := by
    unfold updateWhere
    refine (List.map_congr_left fun e he => ?_).trans (List.map_id _)
    rw [h e he]
    rfl
  unfold put
  rw [hown]

end Put

section Counts
variable {b' : Board}

theorem Grown.triggers_le (h : b.Grown b') (edge : WorkflowEdge) :
    succeededTriggerCountForEdge fromStr graph edge (b.own ++ b.reused) ≤
      succeededTriggerCountForEdge fromStr graph edge (b'.own ++ b'.reused) := by
  unfold succeededTriggerCountForEdge
  rw [List.countP_append, List.countP_append, h.reused]
  apply Nat.add_le_add_right
  refine countP_le_of_forall₂ h.own fun e e' hgrows htrigger => ?_
  have hsucceeded : e.status = .succeeded := by
    simp only [Bool.and_eq_true, decide_eq_true_eq] at htrigger
    exact htrigger.1.1
  rwa [hgrows.terminal (by rw [hsucceeded]; rfl)]

theorem Grown.demand_le (h : b.Grown b') (fromStr : String → Option Json) (graph : WorkflowGraph)
    (id : String) : b.demand fromStr graph id ≤ b'.demand fromStr graph id := by
  unfold demand
  apply List.sum_le_sum
  exact fun edge _ => h.triggers_le edge

theorem Grown.live_le (h : b.Grown b') (id : String) : b'.live id ≤ b.live id := by
  unfold live
  have hback : List.Forall₂ (fun e' e => Grows e e') b'.own b.own := h.own.flip
  refine countP_le_of_forall₂ hback fun e' e hgrows hlive => ?_
  simp only [Bool.and_eq_true, beq_iff_eq, decide_eq_true_eq] at hlive ⊢
  refine ⟨hgrows.nodeId ▸ hlive.1, fun hskipped => hlive.2 ?_⟩
  rwa [hgrows.terminal (by rw [hskipped]; rfl)]

theorem demand_insert (nodeId : String) (iteration : ℤ) (id : String) :
    (b.insert nodeId iteration).demand fromStr graph id = b.demand fromStr graph id := by
  unfold demand insert
  congr 1
  refine List.map_congr_left fun edge _ => ?_
  unfold succeededTriggerCountForEdge
  simp [List.countP_append]

theorem live_insert (nodeId : String) (iteration : ℤ) (id : String) :
    (b.insert nodeId iteration).live id = b.live id + if nodeId = id then 1 else 0 := by
  unfold live insert
  rw [List.countP_append]
  congr 1
  by_cases h : nodeId = id
  · simp [h]
  · simp [h]

theorem Grown.mem_of_pending (h : b.Grown b') {e : NodeExecutionSnapshot} (he : e ∈ b'.own)
    (hp : e.status = .pending) : e ∈ b.own := by
  obtain ⟨x, hx, hgrows⟩ := forall₂_mem_right h.own he
  rwa [hgrows.pending hp]

theorem two_le_live {e e' : NodeExecutionSnapshot} (he : e ∈ b.own) (he' : e' ∈ b.own)
    (hne : e ≠ e') (hnode : e.nodeId = e'.nodeId) (hs : e.status ≠ .skipped)
    (hs' : e'.status ≠ .skipped) : 2 ≤ b.live e.nodeId := by
  obtain ⟨l₁, l₂, hown⟩ := List.append_of_mem he
  have hmem : e' ∈ l₁ ++ l₂ := by
    rw [hown] at he'
    rcases List.mem_append.mp he' with h | h
    · exact List.mem_append_left _ h
    · rcases List.mem_cons.mp h with h | h
      · exact absurd h.symm hne
      · exact List.mem_append_right _ h
  have hrest : 0 < (l₁ ++ l₂).countP fun x =>
      x.nodeId == e.nodeId && decide (x.status ≠ .skipped) := by
    rw [List.countP_pos_iff]
    exact ⟨e', hmem, by simp [hnode, hs']⟩
  have hlive : b.live e.nodeId = (l₁ ++ l₂).countP (fun x =>
      x.nodeId == e.nodeId && decide (x.status ≠ .skipped)) + 1 := by
    unfold live
    rw [hown, List.countP_append, List.countP_append, List.countP_cons, if_pos (by simp [hs])]
    omega
  omega

theorem live_pos {e : NodeExecutionSnapshot} (he : e ∈ b.own) (hs : e.status ≠ .skipped) :
    0 < b.live e.nodeId := by
  unfold live
  rw [List.countP_pos_iff]
  exact ⟨e, he, by simp [hs]⟩

theorem exists_of_live_pos (b : Board) (id : String) (h : 0 < b.live id) :
    ∃ e ∈ b.own, e.nodeId = id ∧ e.status ≠ .skipped := by
  unfold live at h
  obtain ⟨e, he, hlive⟩ := List.countP_pos_iff.mp h
  simp only [Bool.and_eq_true, beq_iff_eq, decide_eq_true_eq] at hlive
  exact ⟨e, he, hlive.1, hlive.2⟩

end Counts

section Balance
variable {nodeId : String} {iteration : ℤ} {f : NodeExecutionSnapshot → NodeExecutionSnapshot}
  {status : NodeExecutionStatus}

/-- A write keeps the balance when it begins only what is asked for and skips only below a
Condition. -/
theorem Balanced.put (h : b.Balanced fromStr graph start) (hf : Writes status f)
    (hpending : status ≠ .pending) (hclean : status ≠ .failed ∧ status ≠ .cancelled)
    (hskip : status = .skipped → ∃ node ∈ graph.nodes, node.kind = .condition)
    (hbegin : status ≠ .skipped → ∀ e ∈ b.own, openAt nodeId iteration e = true →
      e.status = .pending → nodeId = start ∨ 0 < b.demand fromStr graph nodeId) :
    (b.put nodeId iteration f).Balanced fromStr graph start := by
  have hgrown : b.Grown (b.put nodeId iteration f) := put_grown hf hpending
  refine ⟨?_, ?_, ?_, ?_, ?_, ?_, ?_⟩
  · have hkey : ∀ e : NodeExecutionSnapshot,
        ((f e).nodeId, (f e).iteration) = (e.nodeId, e.iteration) := fun e => by
      rw [hf.nodeId, hf.iteration]
    unfold Board.put
    rw [map_updateWhere hkey]
    exact h.keys
  · intro e he
    obtain ⟨x, hx, hstep⟩ := forall₂_mem_right hgrown.own he
    rw [hstep.nodeId]
    exact h.known x hx
  · intro e he hstart
    obtain ⟨x, hx, hstep⟩ := forall₂_mem_right hgrown.own he
    rw [hstep.iteration]
    exact h.first x hx (by rw [← hstep.nodeId, hstart])
  · intro e he
    rcases mem_put he with ⟨x, _, _, rfl⟩ | ⟨he, _⟩
    · rwa [hf.status]
    · exact h.clean e he
  · intro hplain e he
    rcases mem_put he with ⟨x, _, _, rfl⟩ | ⟨he, _⟩
    · rw [hf.status]
      intro hskipped
      obtain ⟨node, hnode, hkind⟩ := hskip hskipped
      exact hplain node hnode hkind
    · exact h.plain hplain e he
  · intro e he hstarted hlive
    have hfed : e.nodeId = start ∨ 0 < b.demand fromStr graph e.nodeId := by
      rcases mem_put he with ⟨x, hx, hopen, rfl⟩ | ⟨he, _⟩
      · rw [hf.status] at hlive
        rw [hf.nodeId]
        by_cases hp : x.status = .pending
        · rw [(openAt_iff.mp hopen).1]
          exact hbegin hlive x hx hopen hp
        · refine h.fed x hx hp fun hs => ?_
          have hterminal := (openAt_iff.mp hopen).2.2
          rw [hs] at hterminal
          cases hterminal
      · exact h.fed e he hstarted hlive
    exact hfed.imp_right fun hpos => hpos.trans_le (hgrown.demand_le _ _ e.nodeId)
  · intro id
    have hlive := hgrown.live_le id
    have hbalance := h.balance id
    have hdemand := hgrown.demand_le fromStr graph id
    omega

theorem Balanced.insert (h : b.Balanced fromStr graph start) (hnode : nodeId ∈ graph.nodeIds)
    (hscope : b.inScope nodeId = true) (hstart : nodeId ≠ start)
    (hnew : ∀ e ∈ b.own, (e.nodeId, e.iteration) ≠ (nodeId, iteration))
    (hasked : b.live nodeId < b.demand fromStr graph nodeId) :
    (b.insert nodeId iteration).Balanced fromStr graph start := by
  have hcases : ∀ e ∈ (b.insert nodeId iteration).own,
      e ∈ b.own ∨ e = ⟨nodeId, iteration, .pending, none, none⟩ := by
    intro e he
    rcases List.mem_append.mp he with he | he
    · exact Or.inl he
    · exact Or.inr (List.mem_singleton.mp he)
  refine ⟨?_, ?_, ?_, ?_, ?_, ?_, ?_⟩
  · unfold Board.insert
    rw [List.map_append, List.nodup_append]
    refine ⟨h.keys, List.nodup_singleton _, ?_⟩
    intro key hkey key' hkey' heq
    obtain ⟨e, he, rfl⟩ := List.mem_map.mp hkey
    exact hnew e he (heq.trans (List.mem_singleton.mp hkey'))
  · intro e he
    rcases hcases e he with he | rfl
    · exact h.known e he
    · exact ⟨hnode, hscope⟩
  · intro e he hid
    rcases hcases e he with he | rfl
    · exact h.first e he hid
    · exact absurd hid hstart
  · intro e he
    rcases hcases e he with he | rfl
    · exact h.clean e he
    · exact ⟨nofun, nofun⟩
  · intro hplain e he
    rcases hcases e he with he | rfl
    · exact h.plain hplain e he
    · exact nofun
  · intro e he hstarted hlive
    rw [demand_insert]
    rcases hcases e he with he | rfl
    · exact h.fed e he hstarted hlive
    · exact absurd rfl hstarted
  · intro id
    rw [live_insert, demand_insert]
    have hbalance := h.balance id
    split_ifs with hid
    · subst hid
      omega
    · omega

end Balance

section Support
variable {left : List String}

/-- A node that stops being lively must hand its work on: its successors are lively and it has no
pending execution. -/
theorem Supported.grow {b' : Board} (h : b.Supported fromStr graph start left) (hgrown : b.Grown b')
    (hlively : ∀ u, b.Lively fromStr graph start u → b'.Lively fromStr graph start u ∨
      (∀ t, graph.Edge u t → b'.Lively fromStr graph start t) ∧
        ∀ e ∈ b'.own, e.nodeId = u → e.status ≠ .pending) :
    b'.Supported fromStr graph start left := by
  intro e he hpending
  have hold : e ∈ b.own := hgrown.mem_of_pending he hpending
  refine (h e hold hpending).imp_right ?_
  rintro ⟨u, hu, hpath⟩
  rcases hlively u hu with hu' | ⟨hnext, hnone⟩
  · exact ⟨u, hu', hpath⟩
  · rcases ReflTransGen.cases_head hpath with heq | ⟨t, hedge, hrest⟩
    · exact absurd hpending (hnone e he heq.symm)
    · exact ⟨t, hnext t hedge, hrest⟩

theorem Supported.drop {id : String} (h : b.Supported fromStr graph start (id :: left))
    (hnone : ∀ e ∈ b.own, e.nodeId = id → e.status ≠ .pending) :
    b.Supported fromStr graph start left := by
  intro e he hpending
  rcases h e he hpending with hleft | hreached
  · rcases List.mem_cons.mp hleft with hid | hleft
    · exact absurd hpending (hnone e he hid)
    · exact Or.inl hleft
  · exact Or.inr hreached

theorem Supported.mono {left' : List String} (h : b.Supported fromStr graph start left)
    (hsub : ∀ id ∈ left, id ∈ left') : b.Supported fromStr graph start left' :=
  fun e he hpending => (h e he hpending).imp_left (hsub e.nodeId)

section Writes
variable {nodeId : String} {iteration : ℤ} {f : NodeExecutionSnapshot → NodeExecutionSnapshot}
  {status : NodeExecutionStatus}

theorem mem_put_of_ne {e : NodeExecutionSnapshot} (he : e ∈ b.own) (hne : e.nodeId ≠ nodeId) :
    e ∈ (b.put nodeId iteration f).own := by
  refine mem_updateWhere.mpr (Or.inr ⟨he, ?_⟩)
  simp [openAt, hne]

theorem Lively.put_of_ne (hf : Writes status f) (hpending : status ≠ .pending) {u : String}
    (hne : u ≠ nodeId) (h : b.Lively fromStr graph start u) :
    (b.put nodeId iteration f).Lively fromStr graph start u := by
  have hgrown : b.Grown (b.put nodeId iteration f) := put_grown hf hpending
  have hdemand := hgrown.demand_le fromStr graph u
  rcases h with ⟨e, he, hid, hactive⟩ | ⟨hready, e, he, hid, hp⟩ | ⟨hscope, howed⟩
  · exact Or.inl ⟨e, mem_put_of_ne he (hid ▸ hne), hid, hactive⟩
  · exact Or.inr (Or.inl ⟨hready.imp_right hdemand.trans_lt', e,
      mem_put_of_ne he (hid ▸ hne), hid, hp⟩)
  · have hlive := hgrown.live_le u
    exact Or.inr (Or.inr ⟨hscope, by omega⟩)

theorem Supported.put_active (h : b.Supported fromStr graph start left) (hf : Writes status f)
    (hactive : nodeActive status = true) :
    (b.put nodeId iteration f).Supported fromStr graph start left := by
  have hpending : status ≠ .pending := by
    rintro rfl
    cases hactive
  have hgrown : b.Grown (b.put nodeId iteration f) := put_grown hf hpending
  refine h.grow hgrown fun u hu => Or.inl ?_
  have hrow : ∀ e ∈ b.own, e.nodeId = u →
      e ∈ (b.put nodeId iteration f).own ∨ (b.put nodeId iteration f).Lively fromStr graph start u := by
    intro e he hid
    cases hopen : openAt nodeId iteration e with
    | true =>
      refine Or.inr (Or.inl ⟨f e, mem_updateWhere.mpr (Or.inl ⟨e, he, hopen, rfl⟩), ?_, ?_⟩)
      · rw [hf.nodeId, hid]
      · rw [hf.status, hactive]
    | false => exact Or.inl (mem_updateWhere.mpr (Or.inr ⟨he, hopen⟩))
  rcases hu with ⟨e, he, hid, hact⟩ | ⟨hready, e, he, hid, hp⟩ | ⟨hscope, howed⟩
  · rcases hrow e he hid with hsame | hlively
    · exact Or.inl ⟨e, hsame, hid, hact⟩
    · exact hlively
  · rcases hrow e he hid with hsame | hlively
    · have hdemand := hgrown.demand_le fromStr graph u
      exact Or.inr (Or.inl ⟨hready.imp_right hdemand.trans_lt', e, hsame, hid, hp⟩)
    · exact hlively
  · have hdemand := hgrown.demand_le fromStr graph u
    have hlive := hgrown.live_le u
    exact Or.inr (Or.inr ⟨hscope, by omega⟩)

theorem demand_lt_put (fromStr : String → Option Json) (hg : graph.Accepted start) (hf : Writes .succeeded f)
    {e : NodeExecutionSnapshot} (he : e ∈ b.own) (hopen : openAt nodeId iteration e = true)
    (hcond : isCondition graph nodeId = false) {t : String} (hedge : graph.Edge nodeId t) :
    b.demand fromStr graph t < (b.put nodeId iteration f).demand fromStr graph t := by
  obtain ⟨edge, hmem, hsource, htarget⟩ := hedge
  have hgrown : b.Grown (b.put nodeId iteration f) := put_grown hf nofun
  unfold demand
  refine List.sum_lt_sum _ _ (fun edge _ => hgrown.triggers_le edge)
    ⟨edge, mem_incomingEdges.mpr ⟨hmem, htarget⟩, ?_⟩
  obtain ⟨hnode, _, hterminal⟩ := openAt_iff.mp hopen
  have hstep : List.Forall₂ (fun x y => y = if openAt nodeId iteration x then f x else x) b.own
      (b.put nodeId iteration f).own := by
    unfold put updateWhere
    rw [List.forall₂_map_right_iff, List.forall₂_same]
    exact fun _ _ => rfl
  unfold succeededTriggerCountForEdge
  rw [List.countP_append, List.countP_append]
  apply Nat.add_lt_add_right
  refine countP_lt_of_forall₂ hstep ?_ he ?_ ?_
  · rintro x y rfl htrigger
    split_ifs with hx
    · have hclosed := (openAt_iff.mp hx).2.2
      simp only [Bool.and_eq_true, decide_eq_true_eq] at htrigger
      rw [htrigger.1.1] at hclosed
      cases hclosed
    · exact htrigger
  · have hrunning : e.status ≠ .succeeded := by
      intro hs
      rw [hs] at hterminal
      cases hterminal
    simp [hrunning]
  · rintro y rfl
    rw [if_pos hopen, triggers_edge_iff hg.nodup (hg.source_mem edge hmem)]
    refine ⟨hf.status e, by rw [hf.nodeId, hnode, hsource], fun hc => ?_⟩
    rw [hsource, hcond] at hc
    cases hc

/-- A success of a node that is no Condition hands the work on to its successors: each of them is
owed an execution, or its first one becomes ready. -/
theorem Supported.put_succeeded (hg : graph.Accepted start) (hframe : b.Framed graph)
    (hbalanced : b.Balanced fromStr graph start) (h : b.Supported fromStr graph start left)
    (hf : Writes .succeeded f) (hcond : isCondition graph nodeId = false)
    (hbegun : ∀ e ∈ b.own, openAt nodeId iteration e = true → e.status ≠ .pending) :
    (b.put nodeId iteration f).Supported fromStr graph start left := by
  by_cases hsome : ∃ e ∈ b.own, openAt nodeId iteration e = true
  · obtain ⟨e₀, he₀, hopen⟩ := hsome
    obtain ⟨hnode, _, hterminal⟩ := openAt_iff.mp hopen
    have hlive₀ : e₀.status ≠ .skipped := by
      intro hs
      rw [hs] at hterminal
      cases hterminal
    have hgrown : b.Grown (b.put nodeId iteration f) := put_grown hf nofun
    refine h.grow hgrown fun u hu => ?_
    by_cases hne : u = nodeId
    · subst hne
      by_cases hmore : ∃ e ∈ (b.put u iteration f).own, e.nodeId = u ∧ e.status = .pending
      · obtain ⟨e, he, hid, hp⟩ := hmore
        have hold := hgrown.mem_of_pending he hp
        have hother : e ≠ e₀ := by
          rintro rfl
          exact hbegun e he₀ hopen hp
        have htwo := two_le_live hold he₀ hother (hid.trans hnode.symm) (by rw [hp]; nofun) hlive₀
        have hbalance := hbalanced.balance e.nodeId
        have hdemand := hgrown.demand_le fromStr graph e.nodeId
        rw [hid] at htwo hbalance hdemand
        exact Or.inl (Or.inr (Or.inl ⟨Or.inr (by omega), e, he, hid, hp⟩))
      · refine Or.inr ⟨fun t hedge => ?_, fun e he hid hp => hmore ⟨e, he, hid, hp⟩⟩
        have hscope : b.inScope t = true :=
          hframe.closed u t hedge (hnode ▸ (hbalanced.known e₀ he₀).2)
        have hasked := demand_lt_put fromStr hg hf he₀ hopen hcond hedge
        have hlive := hgrown.live_le t
        have hbalance := hbalanced.balance t
        by_cases howed : (b.put u iteration f).live t < (b.put u iteration f).demand fromStr graph t
        · exact Or.inr (Or.inr ⟨hscope, howed⟩)
        · obtain ⟨e, he, hid, hs⟩ := exists_of_live_pos b t (by omega)
          have hnotstart : t ≠ start := by
            obtain ⟨edge, hmem, _, rfl⟩ := hedge
            exact hg.no_edge_into_start hmem
          have hp : e.status = .pending := by
            by_contra hp
            rcases hbalanced.fed e he hp hs with hstart | hpos
            · exact hnotstart (hid.symm.trans hstart)
            · rw [hid] at hpos
              omega
          have hsame : e ∈ (b.put u iteration f).own := by
            refine mem_updateWhere.mpr (Or.inr ⟨he, ?_⟩)
            by_contra hopen'
            exact hbegun e he (by simpa using hopen') hp
          exact Or.inr (Or.inl ⟨Or.inr (by omega), e, hsame, hid, hp⟩)
    · exact Or.inl (hu.put_of_ne hf nofun hne)
  · rwa [put_eq_self fun e he => by simpa using fun hopen => hsome ⟨e, he, hopen⟩]

theorem Supported.put_skipped (hbalanced : b.Balanced fromStr graph start)
    (h : b.Supported fromStr graph start (nodeId :: left)) (hstart : nodeId ≠ start)
    (hf : Writes .skipped f) {e₀ : NodeExecutionSnapshot} (he₀ : e₀ ∈ b.own)
    (hopen : openAt nodeId iteration e₀ = true)
    (hwaiting : ∀ e ∈ b.own, openAt nodeId iteration e = true → e.status = .pending) :
    (b.put nodeId iteration f).Supported fromStr graph start left := by
  have hnode := (openAt_iff.mp hopen).1
  have hgrown : b.Grown (b.put nodeId iteration f) := put_grown hf nofun
  have hdemand := hgrown.demand_le fromStr graph nodeId
  have hlive : (b.put nodeId iteration f).live nodeId < b.live nodeId := by
    refine countP_updateWhere_lt ?_ he₀ hopen ?_ ?_
    · intro e _ _ hlive
      rw [hf.status] at hlive
      simp at hlive
    · simp [hnode, hwaiting e₀ he₀ hopen]
    · simp [hf.status]
  have hbalance := hbalanced.balance nodeId
  have hkept : (b.put nodeId iteration f).Supported fromStr graph start (nodeId :: left) := by
    refine h.grow hgrown fun u hu => Or.inl ?_
    by_cases hne : u = nodeId
    · subst hne
      rcases hu with ⟨e, he, hid, hactive⟩ | ⟨hready, e, he, hid, hp⟩ | ⟨hscope, howed⟩
      · refine Or.inl ⟨e, mem_updateWhere.mpr (Or.inr ⟨he, ?_⟩), hid, hactive⟩
        by_contra hopen'
        rw [hwaiting e he (by simpa using hopen')] at hactive
        cases hactive
      · have hpos := hready.resolve_left hstart
        exact Or.inr (Or.inr ⟨hid ▸ (hbalanced.known e he).2, by omega⟩)
      · exact Or.inr (Or.inr ⟨hscope, by omega⟩)
    · exact hu.put_of_ne hf nofun hne
  intro e he hp
  rcases hkept e he hp with hleft | hreached
  · rcases List.mem_cons.mp hleft with hid | hleft
    · have hold := hgrown.mem_of_pending he hp
      have hother : e ≠ e₀ := by
        rintro rfl
        rcases mem_put he with ⟨x, _, _, rfl⟩ | ⟨_, hclosed⟩
        · rw [hf.status] at hp
          cases hp
        · rw [hopen] at hclosed
          cases hclosed
      have htwo := two_le_live hold he₀ hother (hid.trans hnode.symm) (by rw [hp]; nofun)
        (by rw [hwaiting e₀ he₀ hopen]; nofun)
      rw [hid] at htwo
      exact Or.inr ⟨nodeId, Or.inr (Or.inl ⟨Or.inr (by omega), e, he, hid, hp⟩), hid ▸ .refl⟩
    · exact Or.inl hleft
  · exact Or.inr hreached

end Writes

theorem Supported.insert {nodeId : String} {iteration : ℤ}
    (h : b.Supported fromStr graph start left)
    (hasked : b.live nodeId < b.demand fromStr graph nodeId) :
    (b.insert nodeId iteration).Supported fromStr graph start left := by
  have hready : (b.insert nodeId iteration).Lively fromStr graph start nodeId := by
    refine Or.inr (Or.inl ⟨Or.inr (by rw [demand_insert]; omega),
      ⟨nodeId, iteration, .pending, none, none⟩, ?_, rfl, rfl⟩)
    exact List.mem_append_right _ (List.mem_singleton_self _)
  intro e he hp
  rcases List.mem_append.mp he with he | he
  · refine (h e he hp).imp_right ?_
    rintro ⟨u, hu, hpath⟩
    refine ⟨u, ?_, hpath⟩
    rcases hu with ⟨x, hx, hid, hactive⟩ | ⟨hfed, x, hx, hid, hp⟩ | ⟨hscope, howed⟩
    · exact Or.inl ⟨x, List.mem_append_left _ hx, hid, hactive⟩
    · exact Or.inr (Or.inl ⟨by rwa [demand_insert], x, List.mem_append_left _ hx, hid, hp⟩)
    · by_cases hne : nodeId = u
      · exact hne ▸ hready
      · exact Or.inr (Or.inr ⟨hscope, by rw [live_insert, demand_insert, if_neg hne]; omega⟩)
  · obtain rfl := List.mem_singleton.mp he
    exact Or.inr ⟨nodeId, hready, .refl⟩

/-- Where nothing is active, ready or owed, nothing is pending. -/
theorem Supported.idle (h : b.Supported fromStr graph start [])
    (hactive : ∀ e ∈ b.own, nodeActive e.status = false)
    (hready : ∀ e ∈ b.own, e.status = .pending →
      ¬ (e.nodeId = start ∨ 0 < b.demand fromStr graph e.nodeId))
    (howed : ∀ id, b.inScope id = true → b.demand fromStr graph id ≤ b.live id)
    {e : NodeExecutionSnapshot} (he : e ∈ b.own) : e.status ≠ .pending := by
  intro hp
  rcases h e he hp with hleft | ⟨u, hu, _⟩
  · cases hleft
  · rcases hu with ⟨x, hx, _, hact⟩ | ⟨hfed, x, hx, hid, hpx⟩ | ⟨hscope, hlt⟩
    · rw [hactive x hx] at hact
      cases hact
    · exact hready x hx hpx (hid ▸ hfed)
    · have hle := howed u hscope
      omega

end Support

end Board

end VibeKanban.Runtime
