import VibeKanban.Runtime.FirstBoard

/-! Trigger accounting: in a workflow without Conditions every success of a source triggers exactly
one execution of a target. -/
namespace VibeKanban.Runtime
open Lib Workflow Relation

/-- The executions of a node. -/
def Db.executionCount (db : Db) (runId : ℕ) (nodeId : String) : ℕ :=
  (db.ownExecutions runId).countP fun n => n.nodeId == nodeId

/-- The succeeded executions of a node. -/
def Db.succeededCount (db : Db) (runId : ℕ) (nodeId : String) : ℕ :=
  (db.ownExecutions runId).countP fun n => n.nodeId == nodeId && decide (n.status = .succeeded)

/-- No execution fails. -/
def allSucceed (s : Stmt) (_ : Db) : Prop := s.succeeds = true

/-- The edge paths from Start to a node. -/
def startPaths (graph : WorkflowGraph) (start nodeId : String) : ℕ :=
  pathCount graph.edges (·.source) (·.target) start nodeId

/-- The number of executions of every node against the edge paths from Start. -/
structure Accounted (graph : WorkflowGraph) (start : String) (runId : ℕ) (db : Db) : Prop where
  bounded : ∀ id, db.executionCount runId id ≤ max 1 (startPaths graph start id)
  distinct : ∀ id, (((db.ownExecutions runId).filter fun n => n.nodeId == id).map
    (·.iteration)).Nodup
  exact : db.runStatus? runId = some .succeeded → ∀ id ∈ graph.nodeIds,
    db.succeededCount runId id = startPaths graph start id
  triggered : db.runStatus? runId = some .succeeded → ∀ id ∈ graph.nodeIds, id ≠ start →
    db.succeededCount runId id =
      ((incomingEdges graph id).map fun edge => db.succeededCount runId edge.source).sum

variable {db : Db} {runId : ℕ} {fromStr : String → Option Json} {graph : WorkflowGraph}
  {start : String} {b : Board}

namespace Board

theorem done_le_live (b : Board) (id : String) : b.done id ≤ b.live id := by
  unfold done live
  refine List.countP_mono_left fun e _ h => ?_
  simp only [Bool.and_eq_true, beq_iff_eq, decide_eq_true_eq] at h ⊢
  exact ⟨h.1, by rw [h.2]; nofun⟩

theorem inflow_eq (f : String → ℕ) (id : String) :
    inflow graph.edges (·.source) (·.target) f id =
      ((incomingEdges graph id).map fun edge => f edge.source).sum := by
  unfold inflow into incomingEdges
  simp only [beq_eq_decide]

theorem Framed.downstream (h : b.Framed graph) {a c : String} (hpath : ReflTransGen graph.Edge a c)
    (ha : b.inScope a = true) : b.inScope c = true := by
  induction hpath with
  | refl => exact ha
  | tail _ hedge ih => exact h.closed _ _ hedge ih

/-- Without Conditions every success of a source asks for one execution, and a run that works on
every node reuses nothing that counts. -/
theorem demand_eq_inflow (fromStr : String → Option Json) (hg : graph.Accepted start)
    (hplain : ∀ node ∈ graph.nodes, node.kind ≠ .condition) (hframe : b.Framed graph)
    (hscope : b.inScope start = true) (id : String) :
    b.demand fromStr graph id = inflow graph.edges (·.source) (·.target) b.done id := by
  rw [inflow_eq]
  unfold demand
  congr 1
  refine List.map_congr_left fun edge hedge => ?_
  obtain ⟨hmem, _⟩ := mem_incomingEdges.mp hedge
  have hsource := hg.source_mem edge hmem
  have hcond : isCondition graph edge.source = false := by
    obtain ⟨node, hnode, hid⟩ := List.mem_map.mp hsource
    rw [← hid, ← Bool.not_eq_true, isCondition_iff hg.nodup hnode]
    exact hplain node hnode
  have hreused : b.reused.countP (fun e => decide (e.status = .succeeded) &&
      e.nodeId == edge.source && executionTriggersEdge fromStr graph edge e) = 0 := by
    rw [List.countP_eq_zero]
    intro e he htrigger
    simp only [Bool.and_eq_true, beq_iff_eq] at htrigger
    have hout := (hframe.reused e he).2
    rw [htrigger.1.2, hframe.downstream (hg.reachable edge.source hsource) hscope] at hout
    cases hout
  unfold succeededTriggerCountForEdge done
  rw [List.countP_append, hreused, Nat.add_zero]
  refine List.countP_congr fun e _ => ?_
  rw [triggers_edge_iff hg.nodup hsource]
  simp [Feeds, hcond, and_comm]

end Board

theorem Db.executionCount_eq (hplain : ∀ e ∈ (db.board runId).own, e.status ≠ .skipped)
    (id : String) : db.executionCount runId id = (db.board runId).live id := by
  unfold executionCount Board.live board
  rw [List.countP_map]
  refine List.countP_congr fun n hn => ?_
  have hlive : n.status ≠ .skipped := hplain n.snapshot (Db.mem_board_own.mpr ⟨n, hn, rfl⟩)
  simp [NodeExecutionRow.snapshot, hlive]

theorem Db.succeededCount_eq (db : Db) (runId : ℕ) (id : String) :
    db.succeededCount runId id = (db.board runId).done id := by
  unfold succeededCount Board.done board
  rw [List.countP_map]
  rfl

section Fits
variable {careful : Prop} {d : Duties} {status : WorkflowRunStatus}

/-- A run that has succeeded has as many successes of a node as there are edge paths to it. -/
theorem Fits.done_eq (h : Fits fromStr graph start careful d b .succeeded) (hg : graph.Accepted start)
    (hplain : ∀ node ∈ graph.nodes, node.kind ≠ .condition)
    (hstart : ∃ e ∈ b.own, e.nodeId = start) {id : String} (hid : id ∈ graph.nodeIds) :
    b.done id = startPaths graph start id := by
  obtain ⟨first, hfirst, hfirstId⟩ := hstart
  have hscope : b.inScope start = true := hfirstId ▸ (h.balanced.known first hfirst).2
  have hdemand := Board.demand_eq_inflow fromStr hg hplain h.framed hscope
  have hsettled : b.Settled fromStr graph := by
    rcases h.status with hopen | ⟨_, hsettled⟩
    · cases hopen
    · exact hsettled
  have hfinished : ∀ v, b.done v = b.live v := by
    intro v
    unfold Board.done Board.live
    refine List.countP_congr fun e he => ?_
    have hterminal := hsettled.1 e he
    have hclean := h.balanced.clean e he
    have hlive := h.balanced.plain hplain e he
    cases hs : e.status <;> simp_all [nodeTerminal]
  have hpaid : ∀ v, inflow graph.edges (·.source) (·.target) b.done v ≤ b.live v := by
    intro v
    by_cases hv : v ∈ graph.nodeIds
    · rw [← hdemand]
      exact hsettled.2 v (h.framed.downstream (hg.reachable v hv) hscope)
    · have hnone : into graph.edges (·.target) v = [] := by
        rw [List.eq_nil_iff_forall_not_mem]
        intro e he
        obtain ⟨hmem, rfl⟩ := mem_into.mp he
        exact hv (hg.target_mem e hmem)
      unfold inflow
      rw [hnone]
      exact Nat.zero_le _
  have hrows : ∀ v, b.live v ≤ max 1 (inflow graph.edges (·.source) (·.target) b.done v) := by
    intro v
    rw [← hdemand]
    exact h.balanced.balance v
  have hpos : ∀ v, ReflTransGen graph.Edge start v → 0 < b.live v := by
    intro v hpath
    induction hpath with
    | refl => exact hfirstId ▸ Board.live_pos hfirst (h.balanced.plain hplain first hfirst)
    | tail _ hedge ih =>
      obtain ⟨e, he, rfl, rfl⟩ := hedge
      have hflow := le_inflow (·.source) (·.target) he b.done
      have hsource := hfinished e.source
      have hle := hpaid e.target
      omega
  exact done_eq_pathCount hg.acyclic (fun e he => hg.reachable _ (hg.source_mem e he)) hrows
    hfinished hpaid hpos (hg.reachable id hid)

theorem Fits.accounted (h : Fits fromStr graph start careful d b status)
    (hshows : db.Shows runId b status) (hg : graph.Accepted start)
    (hplain : ∀ node ∈ graph.nodes, node.kind ≠ .condition)
    (hstart : ∃ e ∈ b.own, e.nodeId = start) : Accounted graph start runId db := by
  have hboard := hshows.board
  have hlive : ∀ id, db.executionCount runId id = b.live id := by
    intro id
    rw [Db.executionCount_eq, hboard]
    rw [hboard]
    exact h.balanced.plain hplain
  have hdone : ∀ id, db.succeededCount runId id = b.done id := by
    intro id
    rw [Db.succeededCount_eq, hboard]
  have hexact : db.runStatus? runId = some .succeeded → ∀ id ∈ graph.nodeIds,
      b.done id = startPaths graph start id := by
    intro hsucceeded id hid
    obtain rfl := Option.some.inj (hshows.status.symm.trans hsucceeded)
    exact h.done_eq hg hplain hstart hid
  refine ⟨fun id => ?_, fun id => ?_, fun hsucceeded id hid => ?_, fun hsucceeded id hid hne => ?_⟩
  · obtain ⟨first, hfirst, hfirstId⟩ := hstart
    have hscope : b.inScope start = true := hfirstId ▸ (h.balanced.known first hfirst).2
    rw [hlive]
    refine rows_le_pathCount hg.acyclic (fun e he => hg.reachable _ (hg.source_mem e he))
      b.done_le_live (fun v => ?_) id
    rw [← Board.demand_eq_inflow fromStr hg hplain h.framed hscope]
    exact h.balanced.balance v
  · have hsub : ((db.ownExecutions runId).filter fun n => n.nodeId == id).Sublist
        db.nodeExecutions := List.filter_sublist.trans List.filter_sublist
    refine (hshows.keyed.ids.of_map.sublist hsub).map_on fun n hn m hm hiteration => ?_
    obtain ⟨hown, hnode⟩ := List.mem_filter.mp hn
    obtain ⟨hown', hnode'⟩ := List.mem_filter.mp hm
    exact hshows.own_unique hown hown' ((beq_iff_eq.mp hnode).trans (beq_iff_eq.mp hnode').symm)
      hiteration
  · rw [hdone]
    exact hexact hsucceeded id hid
  · have hcount := pathCount_eq start hg.acyclic id
    rw [if_neg hne, Nat.zero_add] at hcount
    rw [hdone, hexact hsucceeded id hid]
    simp only [hdone]
    rw [← Board.inflow_eq]
    refine hcount.trans (inflow_congr fun e he _ => ?_)
    exact (hexact hsucceeded e.source (hg.source_mem e he)).symm

end Fits

section History
variable {config : Config} {guard : Stmt → Db → Prop} {x y first : Db}

theorem sound_of_visits {α : Type} {p : Program α}
    (h : Prog.Visits (Stmt.ExecGuarded config guard) p x y) : x.Sound y :=
  h.rel Db.Sound.refl (fun _ _ _ h h' => h.trans h') fun _ _ _ _ hexec => hexec.2.sound

theorem Between.sound (h : Between config runId graph guard x y) : x.Sound y := by
  cases h with
  | route started raw r _ hexec => exact sound_of_visits hexec.visits
  | orchestration hmove => exact Db.sound_orchestration hmove
  | succeed _ _ _ hexec => exact hexec.2.sound
  | wait _ _ _ hexec => exact hexec.2.sound
  | approve _ _ _ _ hexec => exact hexec.2.sound
  | branch _ _ _ _ hexec => exact hexec.2.sound
  | winner _ _ _ hexec => exact hexec.2.sound
  | status _ _ _ hexec => exact hexec.2.sound
  | start _ hexec => exact hexec.2.sound
  | link hexec => exact hexec.2.sound

/-- The executions a run starts with are kept. -/
theorem Reaches.sound (h : Reaches config runId graph guard first x) : first.Sound x := by
  induction h with
  | refl => exact Db.Sound.refl _
  | pass _ _ _ hexec ih => exact ih.trans (sound_of_visits hexec.visits)
  | between _ hstep ih => exact ih.trans hstep.sound

/-- In every state of a run whose executions succeed, between two passes or inside one, the
executions of every node are accounted for by the edge paths from Start. -/
theorem trigger_accounting {validated : ValidatedGraph} {text : String} {passes : ℕ}
    (hvalid : validateGraphForRun graph = .ok validated)
    (hplain : ∀ node ∈ graph.nodes, node.kind ≠ .condition) (hfresh : first.Fresh graph runId)
    (hreach : Reaches config runId graph allSucceed first x)
    (hvisits : Prog.Visits (Stmt.ExecGuarded config allSucceed)
      (driveWorkflowRun config runId graph text passes) x y) :
    Accounted graph validated.startNodeId runId y := by
  have hg := validateGraphForRun_accepted hvalid
  let P : Passes := ⟨config, runId, graph, validated.startNodeId, allSucceed, False, hg,
    fun _ _ h => h, False.elim, False.elim⟩
  have hinv : P.Inv .none x := (hfresh.planned config.router.json.fromStr hg).inv.reaches hreach
  have hfits : ∃ d, P.Inv d y := by
    refine Prog.wp_visits (I := fun z => ∃ d, P.Inv d z) (fun _ _ h => h) (fun r z hz => ?_)
      (Passes.holds_driveWorkflowRun text passes hinv) hvisits
    cases r with
    | ok _ => exact ⟨_, hz.1⟩
    | error _ => exact ⟨_, hz⟩
  obtain ⟨d, b, status, hshows, hfits⟩ := hfits
  refine hfits.accounted hshows hg hplain ?_
  obtain ⟨node, hnode, hid⟩ := List.mem_map.mp hg.start_mem
  have hfirst : (⟨node.id, 0, .pending, none, none⟩ : NodeExecutionSnapshot) ∈
      (first.board runId).own := by
    rw [hfresh.rows]
    exact List.mem_map.mpr ⟨node, hnode, rfl⟩
  obtain ⟨n, hn, hsnapshot⟩ := Db.mem_board_own.mp hfirst
  obtain ⟨hmem, hrun⟩ := Db.mem_ownExecutions.mp hn
  obtain ⟨_, _, hrows⟩ := (hreach.sound.trans (sound_of_visits hvisits)) hfresh.keyed
  obtain ⟨m, hm, habsorbs⟩ := hrows.exists_mem hmem
  have hkey := Prod.mk.inj habsorbs.key
  refine ⟨m.snapshot, ?_, ?_⟩
  · rw [← hshows.board]
    exact Db.mem_board_own.mpr ⟨m, Db.mem_ownExecutions.mpr ⟨hm, hkey.1 ▸ hrun⟩, rfl⟩
  · have hsame : m.nodeId = n.nodeId := (Prod.mk.inj hkey.2).1.symm
    have hnode : node.id = n.nodeId := congrArg NodeExecutionSnapshot.nodeId hsnapshot
    exact hsame.trans (hnode.symm.trans hid)

end History

section Fixture

/-- Two parallel edges from Start to the End. -/
def parallelGraph : WorkflowGraph :=
  ⟨2, [⟨"start", .start, none, none⟩, ⟨"end", .end, none, none⟩],
    [⟨"e", "start", "end"⟩, ⟨"f", "start", "end"⟩], none⟩

def parallelDb : Db := { Db.empty with
  runs := [⟨1, none, 0, parallelGraph, "input", .running, none, none, none⟩]
  nodeExecutions := [⟨0, 1, "start", .start, 0, .pending, none, none, none⟩,
    ⟨1, 1, "end", .end, 0, .pending, none, none, none⟩]
  nextId := 2 }

theorem parallelDb_fresh : parallelDb.Fresh parallelGraph 1 := by
  have hinit : Db.empty.initializeRun 1 none 0 parallelGraph "input" none .queued none =
      .ok parallelDb := rfl
  refine initializeRun_fresh ⟨⟨by decide, by decide, by decide⟩, by decide⟩ ⟨?_, ?_, ?_⟩ rfl ?_ hinit
  all_goals exact fun _ h => (List.not_mem_nil h).elim

/-- The End of the parallel edges is executed twice. -/
theorem trigger_accounting_parallel : ∃ y : Db, Prog.Visits (Stmt.ExecGuarded Config.plain allSucceed)
    (driveWorkflowRun Config.plain 1 parallelGraph "input" 3) parallelDb y ∧
      y.runStatus? 1 = some .succeeded ∧ y.succeededCount 1 "end" = 2 := by
  have hvalid : validateGraphForRun parallelGraph = .ok ⟨2, "start", ["end"]⟩ := rfl
  have hplayed : ((driveWorkflowRun Config.plain 1 parallelGraph "input" 3).play
      (Stmt.accept Config.plain fun s _ => s.succeeds) parallelDb).map (fun p => p.2.runStatus? 1) =
        some (some .succeeded) := by decide +kernel
  obtain ⟨⟨r, y⟩, hplay, hstatus⟩ := Option.map_eq_some_iff.mp hplayed
  have hexec : Prog.Exec (Stmt.ExecGuarded Config.plain allSucceed) _ _ r y :=
    exec_of_accept (fun _ _ h => h) hplay
  have hvisits := hexec.visits
  refine ⟨y, hvisits, hstatus, ?_⟩
  have haccounted := trigger_accounting hvalid (by decide) parallelDb_fresh .refl hvisits
  exact haccounted.exact hstatus "end" (by decide)

end Fixture

end VibeKanban.Runtime
