import VibeKanban.Runtime.Board

/-! The invariant of a pass over the board of its run, and the writes that keep it. -/
namespace VibeKanban.Runtime
open Lib Workflow

/-- What a pass knows while it works: nodes that were asked for, executions that have begun,
executions under way, and targets that a decision left out and that are not skipped yet. -/
structure Duties where
  fed : String → Prop
  begun : String → ℤ → Prop
  hold : String → ℤ → Prop
  left : List String

namespace Duties

def none : Duties := ⟨fun _ => False, fun _ _ => False, fun _ _ => False, []⟩

def begin (d : Duties) (nodeId : String) (iteration : ℤ) : Duties :=
  { d with
    begun := fun id k => d.begun id k ∨ id = nodeId ∧ k = iteration
    hold := fun id k => d.hold id k ∨ id = nodeId ∧ k = iteration }

def release (d : Duties) (nodeId : String) (iteration : ℤ) : Duties :=
  { d with hold := fun id k => d.hold id k ∧ ¬ (id = nodeId ∧ k = iteration) }

end Duties

section
variable (fromStr : String → Option Json) (graph : WorkflowGraph) (start : String)

/-- Everything has ended and everything that is asked for is there. -/
def Board.Settled (b : Board) : Prop :=
  (∀ e ∈ b.own, nodeTerminal e.status = true) ∧
    ∀ id, b.inScope id = true → b.demand fromStr graph id ≤ b.live id

/-- The invariant. What concerns the executions under way and the support of the pending ones is
claimed for careful passes only. -/
structure Fits (careful : Prop) (d : Duties) (b : Board) (status : WorkflowRunStatus) : Prop where
  framed : b.Framed graph
  balanced : b.Balanced fromStr graph start
  status : status.isStopped = false ∨ status = .succeeded ∧ b.Settled fromStr graph
  fed : ∀ id, d.fed id → id = start ∨ 0 < b.demand fromStr graph id
  begun : ∀ id k, d.begun id k → ∀ e ∈ b.own, e.nodeId = id → e.iteration = k → e.status ≠ .pending
  hold : careful → ∀ id k, d.hold id k →
    ∃ e ∈ b.own, e.nodeId = id ∧ e.iteration = k ∧ nodeActive e.status = true
  supported : careful → b.Supported fromStr graph start d.left

end

variable {fromStr : String → Option Json} {graph : WorkflowGraph} {start : String}
  {careful : Prop} {d : Duties} {b : Board} {status : WorkflowRunStatus}

theorem Fits.weaken {d' : Duties} (h : Fits fromStr graph start careful d b status)
    (hfed : ∀ id, d'.fed id → d.fed id) (hbegun : ∀ id k, d'.begun id k → d.begun id k)
    (hhold : careful → ∀ id k, d'.hold id k → d.hold id k)
    (hleft : ∀ id ∈ d.left, id ∈ d'.left) : Fits fromStr graph start careful d' b status :=
  ⟨h.framed, h.balanced, h.status, fun id hid => h.fed id (hfed id hid),
    fun id k hk => h.begun id k (hbegun id k hk),
    fun hc id k hk => h.hold hc id k (hhold hc id k hk),
    fun hc => (h.supported hc).mono hleft⟩

theorem Fits.toNone (h : Fits fromStr graph start careful d b status) (hleft : d.left = []) :
    Fits fromStr graph start careful .none b status := by
  refine h.weaken (fun _ => False.elim) (fun _ _ => False.elim) (fun _ _ _ => False.elim) ?_
  rw [hleft]
  exact fun _ => id

theorem Fits.withStatus {next : WorkflowRunStatus} (h : Fits fromStr graph start careful d b status)
    (hnext : next.isStopped = false ∨ next = .succeeded ∧ b.Settled fromStr graph) :
    Fits fromStr graph start careful d b next := { h with status := hnext }

section Put
variable {nodeId : String} {iteration : ℤ} {f : NodeExecutionSnapshot → NodeExecutionSnapshot}
  {next : NodeExecutionStatus}

theorem Fits.put (h : Fits fromStr graph start careful d b status) (hf : Writes next f)
    (hpending : next ≠ .pending) (hclean : next ≠ .failed ∧ next ≠ .cancelled)
    (hskip : next = .skipped → ∃ node ∈ graph.nodes, node.kind = .condition)
    (hbegin : next ≠ .skipped → d.fed nodeId ∨ d.begun nodeId iteration)
    {hold : String → ℤ → Prop} (hhold : careful → ∀ id k, hold id k →
      ∃ e ∈ (b.put nodeId iteration f).own, e.nodeId = id ∧ e.iteration = k ∧
        nodeActive e.status = true) {left : List String}
    (hsupported : careful → (b.put nodeId iteration f).Supported fromStr graph start left) :
    Fits fromStr graph start careful { d with hold := hold, left := left }
      (b.put nodeId iteration f) status := by
  have hgrown : b.Grown (b.put nodeId iteration f) := Board.put_grown hf hpending
  refine ⟨⟨h.framed.reused, h.framed.closed⟩, ?_, ?_, ?_, ?_, hhold, hsupported⟩
  · refine h.balanced.put hf hpending hclean hskip fun hne e he hopen hp => ?_
    obtain ⟨hnode, hiteration, _⟩ := openAt_iff.mp hopen
    rcases hbegin hne with hfed | hbegun
    · exact h.fed nodeId hfed
    · exact absurd hp (h.begun nodeId iteration hbegun e he hnode hiteration)
  · rcases h.status with hopen | ⟨hsucceeded, hsettled⟩
    · exact Or.inl hopen
    · rw [Board.put_eq_self fun e he => by simp [openAt, hsettled.1 e he]]
      exact Or.inr ⟨hsucceeded, hsettled⟩
  · intro id hid
    exact (h.fed id hid).imp_right fun hpos => hpos.trans_le (hgrown.demand_le _ _ id)
  · intro id k hk e he hnode hiteration hp
    exact h.begun id k hk e (hgrown.mem_of_pending he hp) hnode hiteration hp

theorem Fits.hold_put (h : Fits fromStr graph start careful d b status) (hc : careful) {id : String}
    {k : ℤ} (hk : d.hold id k) (hne : ¬ (id = nodeId ∧ k = iteration)) :
    ∃ e ∈ (b.put nodeId iteration f).own, e.nodeId = id ∧ e.iteration = k ∧
      nodeActive e.status = true := by
  obtain ⟨e, he, hnode, hiteration, hactive⟩ := h.hold hc id k hk
  refine ⟨e, mem_updateWhere.mpr (Or.inr ⟨he, ?_⟩), hnode, hiteration, hactive⟩
  by_contra hopen
  obtain ⟨hnode', hiteration', _⟩ := openAt_iff.mp (by simpa using hopen)
  exact hne ⟨hnode.symm.trans hnode', hiteration.symm.trans hiteration'⟩

theorem Fits.put_active (h : Fits fromStr graph start careful d b status) (hf : Writes next f)
    (hactive : nodeActive next = true) (hbegin : d.fed nodeId ∨ d.begun nodeId iteration) :
    Fits fromStr graph start careful d (b.put nodeId iteration f) status := by
  have hnext : next ≠ .pending ∧ (next ≠ .failed ∧ next ≠ .cancelled) ∧ next ≠ .skipped := by
    cases next <;> simp_all [nodeActive]
  refine h.put hf hnext.1 hnext.2.1 (fun hs => absurd hs hnext.2.2) (fun _ => hbegin)
    (fun hc id k hk => ?_) fun hc => (h.supported hc).put_active hf hactive
  by_cases hne : id = nodeId ∧ k = iteration
  · obtain ⟨e, he, hnode, hiteration, hact⟩ := h.hold hc id k hk
    refine ⟨f e, mem_updateWhere.mpr (Or.inl ⟨e, he, ?_, rfl⟩), ?_, ?_, ?_⟩
    · rw [openAt_iff, hnode, hiteration]
      refine ⟨hne.1, hne.2, ?_⟩
      cases hs : e.status <;> simp_all [nodeActive, nodeTerminal]
    · rw [hf.nodeId, hnode]
    · rw [hf.iteration, hiteration]
    · rw [hf.status, hactive]
  · exact h.hold_put hc hk hne

/-- The mark of an execution. A careful pass marks pending executions only, so the marked one was
not under way. -/
theorem Fits.begin (h : Fits fromStr graph start careful d b status) (hf : Writes next f)
    (hactive : nodeActive next = true) (hfed : d.fed nodeId)
    (hguard : careful → ∃ e ∈ b.own, e.nodeId = nodeId ∧ e.iteration = iteration ∧
      e.status = .pending) :
    Fits fromStr graph start careful (d.begin nodeId iteration) (b.put nodeId iteration f) status ∧
      (careful → ¬ d.hold nodeId iteration) := by
  have hput : Fits fromStr graph start careful d (b.put nodeId iteration f) status :=
    h.put_active hf hactive (Or.inl hfed)
  have hnext : next ≠ .pending := by
    rintro rfl
    cases hactive
  refine ⟨{ hput with begun := ?_, hold := ?_, supported := hput.supported }, fun hc hk => ?_⟩
  · rintro id k (hk | ⟨rfl, rfl⟩) e he hnode hiteration
    · exact hput.begun id k hk e he hnode hiteration
    · rcases Board.mem_put he with ⟨x, _, _, rfl⟩ | ⟨he, hclosed⟩
      · rwa [hf.status]
      · intro hp
        simp [openAt, hnode, hiteration, hp, nodeTerminal] at hclosed
  · rintro hc id k (hk | ⟨rfl, rfl⟩)
    · exact hput.hold hc id k hk
    · obtain ⟨e, he, hnode, hiteration, hp⟩ := hguard hc
      refine ⟨f e, mem_updateWhere.mpr (Or.inl ⟨e, he, ?_, rfl⟩), ?_, ?_, ?_⟩
      · simp [openAt, hnode, hiteration, hp, nodeTerminal]
      · rw [hf.nodeId, hnode]
      · rw [hf.iteration, hiteration]
      · rw [hf.status, hactive]
  · obtain ⟨e, he, hnode, hiteration, hp⟩ := hguard hc
    obtain ⟨x, hx, hnode', hiteration', hact⟩ := h.hold hc nodeId iteration hk
    have heq : e = x := by
      refine List.inj_on_of_nodup_map h.balanced.keys he hx ?_
      rw [hnode, hiteration, hnode', hiteration']
    rw [← heq, hp] at hact
    cases hact

/-- A success, after which the targets in `left` are still to be skipped. -/
theorem Fits.succeed (h : Fits fromStr graph start careful d b status) (hf : Writes .succeeded f)
    (hbegun : d.begun nodeId iteration) {left : List String}
    (hsupported : careful → (b.put nodeId iteration f).Supported fromStr graph start left) :
    Fits fromStr graph start careful { d.release nodeId iteration with left := left }
      (b.put nodeId iteration f) status :=
  h.put hf nofun ⟨nofun, nofun⟩ nofun (fun _ => Or.inr hbegun)
    (fun hc _ _ hk => h.hold_put hc hk.1 hk.2) hsupported

theorem Fits.put_succeeded (hg : graph.Accepted start)
    (h : Fits fromStr graph start careful d b status) (hf : Writes .succeeded f)
    (hbegun : d.begun nodeId iteration) (hcond : isCondition graph nodeId = false) :
    Fits fromStr graph start careful (d.release nodeId iteration) (b.put nodeId iteration f)
      status := by
  refine h.succeed hf hbegun fun hc => ?_
  refine (h.supported hc).put_succeeded hg h.framed h.balanced hf hcond fun e he hopen => ?_
  obtain ⟨hnode, hiteration, _⟩ := openAt_iff.mp hopen
  exact h.begun nodeId iteration hbegun e he hnode hiteration

theorem Fits.put_skipped {left : List String}
    (h : Fits fromStr graph start careful { d with left := nodeId :: left } b status)
    (hf : Writes .skipped f) (hstart : nodeId ≠ start)
    (hcondition : ∃ node ∈ graph.nodes, node.kind = .condition) {e : NodeExecutionSnapshot}
    (he : e ∈ b.own) (hnode : e.nodeId = nodeId) (hiteration : e.iteration = iteration)
    (hp : e.status = .pending) :
    Fits fromStr graph start careful { d with left := left } (b.put nodeId iteration f) status := by
  have hopen : openAt nodeId iteration e = true := by
    simp [openAt, hnode, hiteration, hp, nodeTerminal]
  have hunique : ∀ x ∈ b.own, openAt nodeId iteration x = true → x = e := by
    intro x hx hopen'
    obtain ⟨hnode', hiteration', _⟩ := openAt_iff.mp hopen'
    refine List.inj_on_of_nodup_map h.balanced.keys hx he ?_
    rw [hnode, hiteration, hnode', hiteration']
  refine h.put hf (by decide) ⟨by decide, by decide⟩ (fun _ => hcondition) (fun hne => absurd rfl hne)
    (fun hc id k hk => h.hold_put hc hk ?_) fun hc => ?_
  · rintro ⟨rfl, rfl⟩
    obtain ⟨x, hx, hnode', hiteration', hact⟩ := h.hold hc _ _ hk
    have heq : x = e := by
      refine List.inj_on_of_nodup_map h.balanced.keys hx he ?_
      rw [hnode, hiteration, hnode', hiteration']
    rw [heq, hp] at hact
    cases hact
  · refine (h.supported hc).put_skipped h.balanced hstart hf he hopen fun x hx hopen' => ?_
    rw [hunique x hx hopen', hp]

end Put

theorem Fits.drop {nodeId : String} {left : List String}
    (h : Fits fromStr graph start careful { d with left := nodeId :: left } b status)
    (hnone : ∀ e ∈ b.own, e.nodeId = nodeId → e.status ≠ .pending) :
    Fits fromStr graph start careful { d with left := left } b status :=
  { h with supported := fun hc => (h.supported hc).drop hnone }

theorem Fits.insert {nodeId : String} {iteration : ℤ}
    (h : Fits fromStr graph start careful .none b status) (hnode : nodeId ∈ graph.nodeIds)
    (hscope : b.inScope nodeId = true) (hstart : nodeId ≠ start)
    (hnew : ∀ e ∈ b.own, (e.nodeId, e.iteration) ≠ (nodeId, iteration))
    (hasked : b.live nodeId < b.demand fromStr graph nodeId) :
    Fits fromStr graph start careful .none (b.insert nodeId iteration) status := by
  refine ⟨⟨h.framed.reused, h.framed.closed⟩, h.balanced.insert hnode hscope hstart hnew hasked, ?_,
    fun _ => False.elim, fun _ _ => False.elim, fun _ _ _ => False.elim,
    fun hc => (h.supported hc).insert hasked⟩
  rcases h.status with hopen | ⟨_, hsettled⟩
  · exact Or.inl hopen
  · have hle := hsettled.2 nodeId hscope
    omega

end VibeKanban.Runtime
