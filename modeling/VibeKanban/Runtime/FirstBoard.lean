import VibeKanban.Runtime.History
import VibeKanban.Runtime.ReworkStart

/-! The board of a run when it starts, for first executions and for reworks. -/
namespace VibeKanban.Runtime
open Lib Workflow Relation

section
variable (fromStr : String → Option Json) (graph : WorkflowGraph) (start : String)

/-- A run that has not begun: one pending execution for every node it works on, each downstream of
Start or of a node that reused results feed. -/
structure Db.Planned (db : Db) (runId : ℕ) : Prop where
  keyed : db.Keyed
  lineage : db.Lineage runId
  framed : (db.board runId).Framed graph
  known : ∀ e ∈ (db.board runId).own, e.nodeId ∈ graph.nodeIds ∧
    (db.board runId).inScope e.nodeId = true
  pending : ∀ e ∈ (db.board runId).own, e.status = .pending ∧ e.iteration = 0
  status : ∃ status, db.runStatus? runId = some status ∧ status.isStopped = false
  supported : (db.board runId).Supported fromStr graph start []

/-- A first execution: one pending execution for every node and nothing reused. -/
structure Db.Fresh (db : Db) (runId : ℕ) : Prop where
  keyed : db.Keyed
  reuse : ∀ r ∈ db.reuse, r.runId ≠ runId
  rows : (db.board runId).own = graph.nodes.map fun node => ⟨node.id, 0, .pending, none, none⟩
  scope : ∀ id ∈ graph.nodeIds, (db.board runId).inScope id = true
  status : ∃ status, db.runStatus? runId = some status ∧ status.isStopped = false

end

variable {db db' : Db} {runId : ℕ} {fromStr : String → Option Json} {graph : WorkflowGraph}
  {start : String}

theorem board_keys (runId : ℕ) (h : db.Keyed) :
    ((db.board runId).own.map fun e => (e.nodeId, e.iteration)).Nodup := by
  unfold Db.board
  rw [List.map_map]
  have hsub : ((db.ownExecutions runId).map fun n => (n.runId, n.nodeId, n.iteration)).Nodup :=
    h.keys.sublist (List.Sublist.map _ List.filter_sublist)
  rw [List.nodup_map_iff_inj_on (List.Nodup.of_map _ hsub)]
  intro n hn m hm hkey
  obtain ⟨hnode, hiteration⟩ := Prod.mk.inj hkey
  refine List.inj_on_of_nodup_map hsub hn hm ?_
  rw [(Db.mem_ownExecutions.mp hn).2, (Db.mem_ownExecutions.mp hm).2]
  exact congrArg (Prod.mk runId) (Prod.ext hnode hiteration)

theorem Db.Planned.live_le_one (h : db.Planned fromStr graph start runId) (id : String) :
    (db.board runId).live id ≤ 1 := by
  have hcount := List.nodup_iff_count_le_one.mp (board_keys runId h.keyed) (id, 0)
  refine le_trans ?_ hcount
  unfold Board.live List.count
  rw [List.countP_map]
  refine List.countP_mono_left fun e he hlive => ?_
  simp only [Bool.and_eq_true, beq_iff_eq] at hlive
  simp [hlive.1, (h.pending e he).2]

theorem Db.Planned.inv {P : Passes}
    (h : db.Planned P.config.router.json.fromStr P.graph P.start P.runId) : P.Inv .none db := by
  obtain ⟨status, hstatus, hopen⟩ := h.status
  refine ⟨_, status, ⟨h.keyed, h.lineage, rfl, hstatus⟩, h.framed, ?_, Or.inl hopen,
    fun _ => False.elim, fun _ _ => False.elim, fun _ _ _ => False.elim, fun _ => h.supported⟩
  refine ⟨board_keys P.runId h.keyed, h.known, fun e he _ => (h.pending e he).2, fun e he => ?_,
    fun _ e he => ?_, fun e he hstarted => absurd (h.pending e he).1 hstarted, fun id => ?_⟩
  · rw [(h.pending e he).1]
    exact ⟨nofun, nofun⟩
  · rw [(h.pending e he).1]
    nofun
  · have hone := h.live_le_one id
    omega

theorem Db.Fresh.planned (h : db.Fresh graph runId) (fromStr : String → Option Json)
    (hg : graph.Accepted start) :
    db.Planned fromStr graph start runId := by
  have hmem : ∀ e ∈ (db.board runId).own, ∃ node ∈ graph.nodes,
      e = ⟨node.id, 0, .pending, none, none⟩ := by
    intro e he
    rw [h.rows] at he
    obtain ⟨node, hnode, rfl⟩ := List.mem_map.mp he
    exact ⟨node, hnode, rfl⟩
  have hreused : (db.board runId).reused = [] := by
    unfold Db.board Db.reusedExecutions
    have hnone : (db.reuse.filter fun r => r.runId == runId) = [] := by
      rw [List.filter_eq_nil_iff]
      intro r hr
      simpa using h.reuse r hr
    rw [hnone]
    rfl
  refine ⟨h.keyed, fun r hr hrun => absurd hrun (h.reuse r hr), ⟨?_, ?_⟩, ?_, ?_, h.status, ?_⟩
  · rw [hreused]
    exact fun e he => (List.not_mem_nil he).elim
  · rintro a c ⟨edge, hedge, _, rfl⟩ _
    exact h.scope _ (hg.target_mem edge hedge)
  · intro e he
    obtain ⟨node, hnode, rfl⟩ := hmem e he
    have hid : node.id ∈ graph.nodeIds := List.mem_map_of_mem hnode
    exact ⟨hid, h.scope _ hid⟩
  · intro e he
    obtain ⟨node, _, rfl⟩ := hmem e he
    exact ⟨rfl, rfl⟩
  · intro e he _
    obtain ⟨node, hnode, rfl⟩ := hmem e he
    refine Or.inr ⟨start, Or.inr (Or.inl ⟨Or.inl rfl, ?_⟩),
      hg.reachable node.id (List.mem_map_of_mem hnode)⟩
    obtain ⟨first, hfirst, hid⟩ := List.mem_map.mp hg.start_mem
    refine ⟨⟨first.id, 0, .pending, none, none⟩, ?_, hid, rfl⟩
    rw [h.rows]
    exact List.mem_map.mpr ⟨first, hfirst, rfl⟩

theorem pendingRows_snapshots (runId id : ℕ) (nodes : List WorkflowNode) :
    (pendingRows runId id nodes).map (·.snapshot) = nodes.map fun node =>
      (⟨node.id, 0, .pending, none, none⟩ : NodeExecutionSnapshot) := by
  induction nodes generalizing id with
  | nil => rfl
  | cons node rest ih =>
    rw [pendingRows, List.map_cons, List.map_cons, ih]
    rfl

theorem board_own_append {rows : List NodeExecutionRow} {nodes : List WorkflowNode} (id : ℕ)
    (hno : ∀ n ∈ rows, n.runId ≠ runId)
    (hrows : db.nodeExecutions = rows ++ pendingRows runId id nodes) :
    (db.board runId).own = nodes.map fun node => ⟨node.id, 0, .pending, none, none⟩ := by
  unfold Db.board Db.ownExecutions
  have hold : rows.filter (fun n => n.runId == runId) = [] := by
    rw [List.filter_eq_nil_iff]
    intro n hn
    simpa using hno n hn
  have hnew : (pendingRows runId id nodes).filter (fun n => n.runId == runId) =
      pendingRows runId id nodes := by
    rw [List.filter_eq_self]
    intro n hn
    obtain ⟨_, node, _, heq⟩ := mem_pendingRows hn
    rw [heq]
    exact beq_self_eq_true runId
  rw [hrows, List.filter_append, hold, hnew, List.nil_append, pendingRows_snapshots]

theorem initializeRun_fresh {attemptId : Option ℕ} {projectId : ℕ} {inputText : String}
    {queueProjectId : Option ℕ} {phase : QueuePhase} (hkeyed : db.Keyed) (hno : db.NoRows runId)
    (hnew : db.run? runId = none) (hsubmissions : ∀ s ∈ db.submissions, s.runId ≠ runId)
    (h : db.initializeRun runId attemptId projectId graph inputText queueProjectId phase none =
      .ok db') : db'.Fresh graph runId := by
  have hkeyed' := (Db.sound_initializeRun h hkeyed).1
  rcases Db.initializeRun_cases h with ⟨hsome, _⟩ | ⟨_, mid, hmid, hqueue⟩
  · rw [hnew] at hsome
    cases hsome
  · have hall : (graph.nodes.filter fun node =>
        (none : Option (List String)).all fun ids => ids.contains node.id) = graph.nodes := by simp
    rw [hall] at hmid
    have hrows := Db.materialize_all hmid
    have htables : db'.nodeExecutions = mid.nodeExecutions ∧ db'.reuse = mid.reuse ∧
        db'.submissions = mid.submissions ∧ db'.runs = mid.runs := by
      rcases hqueue with ⟨_, rfl⟩ | ⟨project, _, henqueue⟩
      · exact ⟨rfl, rfl, rfl, rfl⟩
      · unfold Db.enqueue at henqueue
        split_ifs at henqueue
        obtain rfl := Except.ok.inj henqueue
        exact ⟨rfl, rfl, rfl, rfl⟩
    have hscope : db'.submittedAffectedNodes runId = none := by
      unfold Db.submittedAffectedNodes
      rw [htables.2.2.1, hrows, List.find?_eq_none.mpr fun s hs => by
        simpa using hsubmissions s hs]
      rfl
    refine ⟨hkeyed', ?_, ?_, ?_, ?_⟩
    · rw [htables.2.1, hrows]
      exact hno.reuse
    · refine board_own_append db.nextId hno.nodeExecutions ?_
      rw [htables.1, hrows]
      rfl
    · intro id _
      unfold Board.inScope Db.board
      rw [hscope]
      rfl
    · refine ⟨if queueProjectId.isSome then .pending else .running, ?_, ?_⟩
      · unfold Db.runStatus? Db.run?
        rw [htables.2.2.2, hrows]
        have hfind : (db.runs.find? fun r => decide (r.id = runId)) = none := hnew
        simp only [Db.insertRun, List.find?_append, hfind, Option.none_or]
        simp
      · split_ifs
        · rfl
        · rfl

/-- A path into a set that its edges never leave: the edge by which it enters, and the rest. -/
theorem exists_entry {α : Type*} {r : α → α → Prop} {p : α → Prop} {a b : α}
    (h : ReflTransGen r a b) (ha : ¬ p a) (hb : p b) :
    ∃ x y, ReflTransGen r a x ∧ ¬ p x ∧ r x y ∧ p y ∧ ReflTransGen r y b := by
  induction h with
  | refl => exact absurd hb ha
  | @tail y z hay hyz ih =>
    by_cases hy : p y
    · obtain ⟨u, v, hau, hu, huv, hv, hvy⟩ := ih hy
      exact ⟨u, v, hau, hu, huv, hv, hvy.tail hyz⟩
    · exact ⟨y, z, hay, hy, hyz, hb, .refl⟩

theorem applyRunPlan_scope {plan : ReworkPlan} (h : db.applyRunPlan runId graph plan = .ok db')
    (hsubmission : ∃ s, db.submissions.find? (fun s => s.runId = runId) = some s ∧
      s.planningState = .pending) : db'.runs = db.runs ∧ db.nextId ≤ db'.nextId ∧
        db'.submittedAffectedNodes runId = some plan.affectedNodeIds := by
  rw [Db.applyRunPlan] at h
  obtain ⟨db₁, h₁, h⟩ := except_bind_ok h
  obtain ⟨db₂, h₂, h⟩ := except_bind_ok h
  obtain ⟨db₃, h₃, h⟩ := except_bind_ok h
  obtain rfl := Except.ok.inj h
  obtain ⟨rows, rfl, _⟩ := Db.insertReuse_all h₁
  rw [Db.insertDisposition_all h₂] at h₃
  rw [Db.materialize_all h₃]
  refine ⟨rfl, Nat.le_add_right _ _, ?_⟩
  obtain ⟨s, hs, hpending⟩ := hsubmission
  have hrun : s.runId = runId := by simpa using List.find?_some hs
  unfold Db.submittedAffectedNodes Db.setPlanning
  dsimp only
  rw [find_updateWhere SubmissionRow.runId (by intro; rfl), hs]
  simp [hrun, hpending]

section Rework
variable {kept : List String} {sourceRunId : Option ℕ} {plan : ReworkPlan} {roots : List String}
  {request : Option (List String)}

theorem edges_of_permitted {source : List ReworkSourceExecution} {a b : String}
    (h : ReflTransGen (PermittedRoute fromStr graph roots source) a b) :
    ReflTransGen graph.Edge a b := by
  have hle : PermittedRoute fromStr graph roots source ≤ graph.Edge := fun _ _ hroute => hroute.edge
  exact ReflTransGen.mono hle _ _ h

theorem applyRunPlan_reused (hkeyed : db.Keyed) (hno : db.NoRows runId)
    (hacc : plan.Accepted fromStr graph roots (db.sourceRecords sourceRunId) kept)
    (h : db.applyRunPlan runId graph plan = .ok db') {r : ReuseRow} (hr : r ∈ db'.reuse)
    (hrun : r.runId = runId) : r.nodeId ∉ plan.affectedNodeIds ∧
      ∃ m ∈ db.nodeExecutions, m.id = r.sourceNodeExecutionId ∧ m.status = .succeeded ∧
        ∀ n ∈ db'.nodeExecutions, n.id = r.sourceNodeExecutionId → n = m := by
  obtain ⟨rows, hnodes, hreuse, _, hrows, _⟩ := Db.applyRunPlan_tables h
  rw [hreuse] at hr
  rcases List.mem_append.mp hr with hr | hr
  · exact absurd hrun (hno.reuse r hr)
  · obtain ⟨binding, hbinding, hparse, heq⟩ := hrows r hr
    obtain ⟨record, hrecord, hsucceeded, rfl⟩ := Db.reuse_record hacc hbinding
    obtain ⟨m, hm, hid, hstatus, _⟩ := Db.sourceRecords_stored hrecord hsucceeded
    have hsource : m.id = r.sourceNodeExecutionId := Option.some.inj (hid.symm.trans hparse)
    have hnode : r.nodeId ∈ kept := by
      refine hacc.mem_reuse_nodes.mp (List.mem_map.mpr ⟨record.binding, hbinding, ?_⟩)
      rw [heq]
    refine ⟨fun haffected => ?_, m, hm, hsource, hstatus, fun n hn hn' => ?_⟩
    · exact ((hacc.mem_kept _).mp hnode).2.1 ((hacc.mem_affected _).mp haffected)
    · rw [hnodes] at hn
      exact hkeyed.toExecutionKeys.stored_unique (fun x hx => (mem_pendingRows hx).1) hm hn
        (hn'.trans hsource.symm)

/-- A written plan is the start of its run: every affected node is downstream of Start or of a node
that a reused result feeds. -/
theorem applyRunPlan_planned (hg : graph.Accepted start) (hkeyed : db.Keyed) (hno : db.NoRows runId)
    (hstatus : ∃ status, db.runStatus? runId = some status ∧ status.isStopped = false)
    (hsubmission : ∃ s, db.submissions.find? (fun s => s.runId = runId) = some s ∧
      s.planningState = .pending)
    (hplan : planRework fromStr graph request (db.sourceRecords sourceRunId) = .ok plan)
    (h : db.applyRunPlan runId graph plan = .ok db') : db'.Planned fromStr graph start runId := by
  rcases planRework_spec fromStr (db.sourceRecords sourceRunId) hg.target_mem request with
    ⟨⟨m, hm⟩, _⟩ | ⟨plan', kept, hok, hnref, hacc⟩
  · rw [hm] at hplan
    cases hplan
  obtain rfl := Except.ok.inj (hok.symm.trans hplan)
  have hkeyed' := (Db.sound_applyRunPlan h hkeyed).1
  have hshown := Db.applyRunPlan_shown hg hkeyed.toExecutionKeys hno hacc h
  obtain ⟨hruns, hnext, hscope⟩ := applyRunPlan_scope h hsubmission
  obtain ⟨_, hnodes, _⟩ := Db.applyRunPlan_tables h
  have hown := board_own_append db.nextId hno.nodeExecutions hnodes
  have hinScope : ∀ id, (db'.board runId).inScope id = true ↔ id ∈ plan'.affectedNodeIds := by
    intro id
    unfold Board.inScope Db.board
    rw [hscope]
    simp
  have hrow : ∀ e ∈ (db'.board runId).own, ∃ node ∈ graph.nodes,
      node.id ∈ plan'.affectedNodeIds ∧ e = ⟨node.id, 0, .pending, none, none⟩ := by
    intro e he
    rw [hown] at he
    obtain ⟨node, hnode, rfl⟩ := List.mem_map.mp he
    obtain ⟨hmem, haffected⟩ := List.mem_filter.mp hnode
    exact ⟨node, hmem, by simpa using haffected, rfl⟩
  have hpending : ∀ id ∈ plan'.affectedNodeIds,
      ∃ e ∈ (db'.board runId).own, e.nodeId = id ∧ e.status = .pending := by
    intro id hid
    obtain ⟨node, hnode, rfl⟩ := List.mem_map.mp
      (affected_mem_nodeIds hg.target_mem hacc.roots_known ((hacc.mem_affected id).mp hid))
    refine ⟨⟨node.id, 0, .pending, none, none⟩, ?_, rfl, rfl⟩
    rw [hown]
    exact List.mem_map.mpr ⟨node, Db.mem_affectedRows hnode hid, rfl⟩
  refine ⟨hkeyed', fun r hr hrun => ?_, ⟨?_, ?_⟩, ?_, ?_, ?_, ?_⟩
  · obtain ⟨_, m, hm, hid, _, hunique⟩ := applyRunPlan_reused hkeyed hno hacc h hr hrun
    refine ⟨?_, fun n hn hn' => ?_⟩
    · rw [← hid]
      exact (hkeyed.fresh m hm).trans_le hnext
    · rw [hunique n hn hn']
      exact hno.nodeExecutions m hm
  · intro e he
    obtain ⟨x, hx, rfl⟩ := List.mem_map.mp he
    obtain ⟨r, hr, hrun, n, hn, hid, rfl⟩ := Db.mem_reusedExecutions.mp hx
    obtain ⟨hout, m, _, _, hsucceeded, hunique⟩ := applyRunPlan_reused hkeyed hno hacc h hr hrun
    refine ⟨?_, ?_⟩
    · rw [hunique n hn hid]
      exact hsucceeded
    · rw [← Bool.not_eq_true, hinScope]
      exact hout
  · intro a c hedge ha
    rw [hinScope, hacc.mem_affected] at ha ⊢
    exact ha.tail hedge
  · intro e he
    obtain ⟨node, hnode, haffected, rfl⟩ := hrow e he
    exact ⟨List.mem_map_of_mem hnode, (hinScope _).mpr haffected⟩
  · intro e he
    obtain ⟨node, _, _, rfl⟩ := hrow e he
    exact ⟨rfl, rfl⟩
  · obtain ⟨status, hs, hopen⟩ := hstatus
    refine ⟨status, ?_, hopen⟩
    unfold Db.runStatus? Db.run? at hs ⊢
    rw [hruns, hs]
  · intro e he _
    obtain ⟨node, hnode, haffected, rfl⟩ := hrow e he
    have ha := (hacc.mem_affected _).mp haffected
    obtain ⟨first, hfirst, hkind, hpath⟩ := permitted_of_affected hg hnref ha
    rw [(hg.start_iff first hfirst).mp hkind] at hpath
    by_cases hstart : start ∈ plan'.affectedNodeIds
    · exact Or.inr ⟨start, Or.inr (Or.inl ⟨Or.inl rfl, hpending start hstart⟩),
        edges_of_permitted hpath⟩
    · rw [hacc.mem_affected] at hstart
      obtain ⟨x, y, hx, hxout, hentry, hyin, hrest⟩ := exists_entry hpath hstart ha
      have hy := (hacc.mem_affected y).mpr hyin
      refine Or.inr ⟨y, Or.inr (Or.inl ⟨Or.inr ?_, hpending y hy⟩), edges_of_permitted hrest⟩
      rw [Db.demand_pos_iff hg, hshown.feeds_iff hacc]
      obtain ⟨edge, hedge, rfl, rfl, hselects⟩ := hentry
      refine ⟨edge.source, (hacc.mem_kept _).mpr ⟨hg.source_mem edge hedge, hxout, first, hfirst,
        hkind, ?_⟩, edge, hedge, rfl, rfl, fun hc => hselects hc hxout⟩
      rwa [(hg.start_iff first hfirst).mp hkind]

/-- A plan for every node is a first execution of every node, whatever its source was. -/
theorem applyRunPlan_fresh (hg : graph.Accepted start) (hkeyed : db.Keyed) (hno : db.NoRows runId)
    (hstatus : ∃ status, db.runStatus? runId = some status ∧ status.isStopped = false)
    (hsubmission : ∃ s, db.submissions.find? (fun s => s.runId = runId) = some s ∧
      s.planningState = .pending)
    (hplan : planRework fromStr graph none (db.sourceRecords sourceRunId) = .ok plan)
    (h : db.applyRunPlan runId graph plan = .ok db') : db'.Fresh graph runId := by
  rcases planRework_spec fromStr (db.sourceRecords sourceRunId) hg.target_mem none with
    ⟨⟨m, hm⟩, _⟩ | ⟨plan', kept, hok, _, hacc⟩
  · rw [hm] at hplan
    cases hplan
  obtain rfl := Except.ok.inj (hok.symm.trans hplan)
  obtain ⟨hruns, _, hscope⟩ := applyRunPlan_scope h hsubmission
  obtain ⟨rows, hnodes, hreuse, _, hrows, _⟩ := Db.applyRunPlan_tables h
  have haffected : ∀ id ∈ graph.nodeIds, id ∈ plan'.affectedNodeIds := fun id hid =>
    (hacc.mem_affected id).mpr ⟨id, hid, .refl⟩
  have hall : (graph.nodes.filter fun node => plan'.affectedNodeIds.contains node.id) =
      graph.nodes := by
    rw [List.filter_eq_self]
    intro node hnode
    simpa using haffected node.id (List.mem_map_of_mem hnode)
  refine ⟨(Db.sound_applyRunPlan h hkeyed).1, fun r hr hrun => ?_, ?_, fun id hid => ?_, ?_⟩
  · rw [hreuse] at hr
    rcases List.mem_append.mp hr with hr | hr
    · exact hno.reuse r hr hrun
    · obtain ⟨binding, hbinding, _⟩ := hrows r hr
      have hkept := (hacc.mem_kept _).mp (hacc.mem_reuse_nodes.mp (List.mem_map_of_mem hbinding))
      exact hkept.2.1 ⟨_, hkept.1, .refl⟩
  · rw [board_own_append db.nextId hno.nodeExecutions hnodes, hall]
  · unfold Board.inScope Db.board
    rw [hscope]
    simpa using haffected id hid
  · obtain ⟨status, hs, hopen⟩ := hstatus
    refine ⟨status, ?_, hopen⟩
    unfold Db.runStatus? Db.run? at hs ⊢
    rw [hruns, hs]

end Rework

end VibeKanban.Runtime
