import VibeKanban.Runtime.Observation

/-! How the executions of a run follow the agent runs that its calls have seen. -/
namespace VibeKanban.Runtime
open Lib Workflow Router

/-- A row that keeps all but its status and its texts. -/
structure SameRow (n n' : NodeExecutionRow) : Prop where
  id : n'.id = n.id
  runId : n'.runId = n.runId
  nodeId : n'.nodeId = n.nodeId
  nodeType : n'.nodeType = n.nodeType
  iteration : n'.iteration = n.iteration
  arenaGroupId : n'.arenaGroupId = n.arenaGroupId

theorem SameRow.refl (n : NodeExecutionRow) : SameRow n n := ⟨rfl, rfl, rfl, rfl, rfl, rfl⟩

theorem SameRow.trans {a b c : NodeExecutionRow} (h : SameRow a b) (h' : SameRow b c) :
    SameRow a c :=
  ⟨h'.id.trans h.id, h'.runId.trans h.runId, h'.nodeId.trans h.nodeId,
    h'.nodeType.trans h.nodeType, h'.iteration.trans h.iteration,
    h'.arenaGroupId.trans h.arenaGroupId⟩

/-- A pending row may be skipped. -/
def Skips (n n' : NodeExecutionRow) : Prop :=
  n' = n ∨ n.status = .pending ∧ n' = { n with status := .skipped }

theorem Skips.sameRow {n n' : NodeExecutionRow} (h : Skips n n') : SameRow n n' := by
  rcases h with rfl | ⟨_, rfl⟩
  · exact SameRow.refl _
  · exact ⟨rfl, rfl, rfl, rfl, rfl, rfl⟩

theorem Skips.trans {a b c : NodeExecutionRow} (h : Skips a b) (h' : Skips b c) : Skips a c := by
  rcases h with rfl | ⟨hpending, rfl⟩
  · exact h'
  · rcases h' with rfl | ⟨hskipped, _⟩
    · exact Or.inr ⟨hpending, rfl⟩
    · cases hskipped

theorem Skips.eq_of_started {n n' : NodeExecutionRow} (h : Skips n n') (hs : n.status ≠ .pending) :
    n' = n := h.resolve_right fun hpending => hs hpending.1

/-- The row of an execution after its observation. -/
def NodeExecutionRow.written (n : NodeExecutionRow) (p : Projection) : NodeExecutionRow :=
  match p.update with
  | some update => { n with
      status := update.status
      outputText := update.outputText.or n.outputText
      arenaGroupId := update.arenaGroupId.or n.arenaGroupId
      errorText := update.errorText }
  | none => n

theorem NodeExecutionRow.written_started {n : NodeExecutionRow} (hs : n.status ≠ .pending)
    (p : Projection) : (n.written p).status ≠ .pending := by
  rw [written]
  split
  · rename_i update _
    exact update.started
  · exact hs

namespace Db
variable {db : Db} {runId : ℕ}

theorem ExecutionKeys.of_map (hk : db.ExecutionKeys) {g : NodeExecutionRow → NodeExecutionRow}
    {db' : Db} (hrows : db'.nodeExecutions = db.nodeExecutions.map g)
    (hsame : ∀ n ∈ db.nodeExecutions, SameRow n (g n)) (hnext : db'.nextId = db.nextId) :
    db'.ExecutionKeys := by
  refine ⟨?_, ?_, ?_⟩
  · rw [hrows, List.map_map]
    have hids : db.nodeExecutions.map ((·.id) ∘ g) = db.nodeExecutions.map (·.id) :=
      List.map_congr_left fun n hn => (hsame n hn).id
    exact hids ▸ hk.ids
  · intro n hn
    rw [hrows, List.mem_map] at hn
    obtain ⟨m, hm, rfl⟩ := hn
    rw [(hsame m hm).id, hnext]
    exact hk.fresh m hm
  · rw [hrows, List.map_map]
    have hkeys : db.nodeExecutions.map ((fun n => (n.runId, n.nodeId, n.iteration)) ∘ g) =
        db.nodeExecutions.map fun n => (n.runId, n.nodeId, n.iteration) := by
      refine List.map_congr_left fun n hn => ?_
      rw [Function.comp_apply, (hsame n hn).runId, (hsame n hn).nodeId, (hsame n hn).iteration]
    exact hkeys ▸ hk.keys

theorem skipTarget_rows (db : Db) (target : String) :
    ∃ g, (db.skipTarget runId target).nodeExecutions = db.nodeExecutions.map g ∧
      ∀ n, Skips n (g n) := by
  rw [skipTarget]
  split
  · refine ⟨_, rfl, fun n => ?_⟩
    dsimp only
    split_ifs with hpending
    · exact Or.inr ⟨by simp at hpending; exact hpending.2, rfl⟩
    · exact Or.inl rfl
  · exact ⟨id, by simp, fun n => Or.inl rfl⟩

theorem skipTargets_rows (db : Db) (targets : List String) :
    ∃ g, (targets.foldl (fun db target => db.skipTarget runId target) db).nodeExecutions =
      db.nodeExecutions.map g ∧ ∀ n, Skips n (g n) := by
  induction targets generalizing db with
  | nil => exact ⟨id, by simp, fun n => Or.inl rfl⟩
  | cons target rest ih =>
    obtain ⟨g, hg, hskips⟩ := @skipTarget_rows runId db target
    obtain ⟨g', hg', hskips'⟩ := ih (db.skipTarget runId target)
    refine ⟨g' ∘ g, ?_, fun n => (hskips n).trans (hskips' (g n))⟩
    rw [List.foldl_cons, hg', hg, List.map_map]

/-- The write of an observation reaches the observed execution only. -/
theorem updated_rows (hk : db.ExecutionKeys) {n : NodeExecutionRow} (hn : n ∈ db.nodeExecutions)
    (hown : n.runId = runId) (hopen : nodeTerminal n.status = false) (p : Projection) :
    ∃ g, (db.updated runId n p.update).nodeExecutions = db.nodeExecutions.map g ∧
      g n = n.written p ∧ ∀ m ∈ db.nodeExecutions, m ≠ n → g m = m := by
  rw [NodeExecutionRow.written]
  cases p.update with
  | none => exact ⟨id, by simp [updated], rfl, fun m _ _ => rfl⟩
  | some update =>
    refine ⟨_, rfl, ?_, fun m hm hne => ?_⟩
    · dsimp only
      rw [if_pos (by simp [hown, hopen])]
    · refine if_neg fun hkey => hne ?_
      simp only [Bool.and_eq_true, beq_iff_eq] at hkey
      refine List.inj_on_of_nodup_map hk.keys hm hn ?_
      rw [hkey.1.1.1, hkey.1.1.2, hkey.1.2, hown]

theorem project_rows (hk : db.ExecutionKeys) {n : NodeExecutionRow} (hn : n ∈ db.nodeExecutions)
    (hown : n.runId = runId) (hactive : nodeActive n.status = true) (p : Projection) :
    ∃ g, (db.project runId n p).nodeExecutions = db.nodeExecutions.map g ∧ g n = n.written p ∧
      ∀ m ∈ db.nodeExecutions, m ≠ n → Skips m (g m) := by
  have hopen : nodeTerminal n.status = false := by
    cases h : n.status <;> simp [h, nodeActive, nodeTerminal] at hactive ⊢
  have hstarted : n.status ≠ .pending := by
    intro h
    rw [h] at hactive
    cases hactive
  obtain ⟨g, hg, hwritten, hother⟩ := updated_rows hk hn hown hopen p
  rw [project]
  generalize db.updated runId n p.update = written at hg ⊢
  obtain ⟨g', hg', hskips⟩ := @skipTargets_rows runId
    (if p.waits then written.updateRunStatus runId .awaitingHuman none none else written) p.skipped
  have hrows : (if p.waits then written.updateRunStatus runId .awaitingHuman none none
      else written).nodeExecutions = db.nodeExecutions.map g := by
    split_ifs
    · exact hg
    · exact hg
  refine ⟨g' ∘ g, ?_, ?_, fun m hm hne => ?_⟩
  · rw [hg', hrows, List.map_map]
  · rw [Function.comp_apply, hwritten]
    exact (hskips _).eq_of_started (n.written_started hstarted p)
  · rw [Function.comp_apply, hother m hm hne]
    exact hskips m

end Db

section Rows
variable {config : Config} {env : Surroundings} {graph : WorkflowGraph} {state : AgentRunState}

/-- The observation of an end depends on the row through its node and the worktree of its router. -/
theorem projection_congr {n m : NodeExecutionRow} (hends : state.status.isTerminal = true)
    (htype : m.nodeType = n.nodeType) (hnode : m.nodeId = n.nodeId)
    (hwarning : routerWarning config env m.outputText = routerWarning config env n.outputText) :
    projection config env graph state m = projection config env graph state n := by
  rw [projection, projection, htype, hnode, hwarning]
  cases hs : state.status <;> first | rfl | (rw [hs] at hends; cases hends)

/-- The row of an agent run that has not ended: as it was, or waiting for what the agent asks. -/
def Held (n n' : NodeExecutionRow) : Prop :=
  n' = n ∨ n' = { n with status := .awaitingHuman, errorText := none }

theorem Held.trans {a b c : NodeExecutionRow} (h : Held a b) (h' : Held b c) : Held a c := by
  rcases h with rfl | rfl
  · exact h'
  · rcases h' with rfl | rfl
    · exact Or.inr rfl
    · exact Or.inr rfl

theorem Held.outputText {n n' : NodeExecutionRow} (h : Held n n') : n'.outputText = n.outputText := by
  rcases h with rfl | rfl
  · rfl
  · rfl

theorem Held.active {n n' : NodeExecutionRow} (h : Held n n') (hactive : nodeActive n.status = true) :
    nodeActive n'.status = true := by
  rcases h with rfl | rfl
  · exact hactive
  · rfl

/-- An observation of an agent run that has not ended. -/
theorem projection_open (hopen : state.status.isTerminal = false) (n : NodeExecutionRow) :
    projection config env graph state n = .none ∨
      projection config env graph state n = ⟨some askingUpdate, false, []⟩ := by
  rw [projection]
  cases hs : state.status with
  | awaitingInput | awaitingApproval =>
    dsimp only
    split_ifs
    · exact Or.inl rfl
    · exact Or.inr rfl
  | pending | starting | running | cancelling => exact Or.inl rfl
  | _ => simp [hs, AgentRunStatus.isTerminal] at hopen

theorem projection_held (hopen : state.status.isTerminal = false) (n : NodeExecutionRow) :
    Held n (n.written (projection config env graph state n)) := by
  rcases @projection_open config env graph state hopen n with h | h
  · rw [h]
    exact Or.inl rfl
  · rw [h]
    exact Or.inr rfl

theorem projection_sameRow (n : NodeExecutionRow) :
    SameRow n (n.written (projection config env graph state n)) := by
  have hkeeps : ∀ p : Projection, (∀ update, p.update = some update → update.arenaGroupId = none) →
      SameRow n (n.written p) := by
    intro p hp
    rw [NodeExecutionRow.written]
    split
    · rename_i update hupdate
      exact ⟨rfl, rfl, rfl, rfl, rfl, by simp [hp update hupdate]⟩
    · exact SameRow.refl n
  apply hkeeps
  intro update hupdate
  rw [projection] at hupdate
  split at hupdate
  · split_ifs at hupdate with hcondition
    · cases hcompletion : routerCompletion config graph n.nodeId (state.terminalOutput.getD "")
          (routerWarning config env n.outputText) with
      | none =>
        rw [hcompletion] at hupdate
        cases hupdate
      | some completion =>
        rw [hcompletion, Option.map_some, Option.getD_some, Projection.ofCompletion] at hupdate
        split_ifs at hupdate
        · obtain rfl := Option.some.inj hupdate
          rfl
        · obtain rfl := Option.some.inj hupdate
          rfl
    · obtain rfl := Option.some.inj hupdate
      rfl
  · obtain rfl := Option.some.inj hupdate
    rfl
  · obtain rfl := Option.some.inj hupdate
    rfl
  · obtain rfl := Option.some.inj hupdate
    rfl
  · obtain rfl := Option.some.inj hupdate
    rfl
  · split_ifs at hupdate
    · cases hupdate
    · obtain rfl := Option.some.inj hupdate
      rfl
  · split_ifs at hupdate
    · cases hupdate
    · obtain rfl := Option.some.inj hupdate
      rfl
  all_goals cases hupdate

/-- The output of a waiting router names no worktree. -/
theorem routerWarning_pause {rawOutput : String} {node : WorkflowNode} {warning : Option String}
    (h : (evaluateRouterOutput config.router rawOutput graph node warning).shouldPause = true) :
    routerWarning config env
      (some (evaluateRouterOutput config.router rawOutput graph node warning).outputText) = none := by
  rw [evaluateRouterOutput] at h ⊢
  split at h
  · cases h
  · rename_i message herror
    rw [routerWarning, routerPreWorktreeFingerprint, ConditionRouterCompletion.pause,
      Option.bind_some, config.router.json.fromStr_toString _ (routerOutputPayload_valid ..)]
    rfl

/-- Without a warning a router waits only if it waits anyway. -/
theorem evaluateRouterOutput_waits {rawOutput : String} {node : WorkflowNode}
    (h : (evaluateRouterOutput config.router rawOutput graph node none).shouldPause = true)
    (warning : Option String) :
    (evaluateRouterOutput config.router rawOutput graph node warning).shouldPause = true := by
  rw [evaluateRouterOutput] at h ⊢
  cases hparsed : parseRouterDecision config.router.decision rawOutput with
  | error e => rfl
  | ok decision =>
    simp only [hparsed, Except.bind] at h ⊢
    cases hvalid : validateRouterDecision graph node decision warning with
    | error e => rfl
    | ok selected =>
      have hsame : validateRouterDecision graph node decision none = .ok selected := by
        rw [validateRouterDecision] at hvalid ⊢
        cases hblank : nonBlank warning with
        | some text =>
          rw [hblank] at hvalid
          cases hvalid
        | none =>
          rw [hblank] at hvalid
          exact hvalid
      rw [hsame] at h
      cases h

/-- What a router decides when its row names no worktree. -/
def lateProjection (config : Config) (env : Surroundings) (graph : WorkflowGraph)
    (state : AgentRunState) (n : NodeExecutionRow) : Projection :=
  projection config env graph state { n with outputText := none }

theorem projection_late {n m : NodeExecutionRow} (hends : state.status.isTerminal = true)
    (h : SameRow n m) (hwarning : routerWarning config env m.outputText = none) :
    projection config env graph state m = lateProjection config env graph state n :=
  projection_congr hends h.nodeType h.nodeId hwarning

/-- The observation of the router of a Condition that succeeded. -/
theorem projection_condition {n : NodeExecutionRow} {node : WorkflowNode}
    (hstatus : state.status = .succeeded) (hcondition : n.nodeType = .condition)
    (hnode : (graph.nodes.find? fun node => node.id == n.nodeId) = some node) :
    projection config env graph state n = .ofCompletion (evaluateRouterOutput config.router
      (state.terminalOutput.getD "") graph node (routerWarning config env n.outputText)) := by
  rw [projection, hstatus]
  simp [hcondition, routerCompletion, hnode]

theorem ofCompletion_waits (completion : ConditionRouterCompletion) :
    (Projection.ofCompletion completion).waits = completion.shouldPause := by
  rw [Projection.ofCompletion]
  split_ifs with h
  · exact h.symm
  · exact (Bool.eq_false_iff.mpr h).symm

/-- Only the router of a Condition waits. -/
theorem projection_waits {n : NodeExecutionRow}
    (h : (projection config env graph state n).waits = true) :
    state.status = .succeeded ∧ n.nodeType = .condition := by
  rw [projection] at h
  split at h
  · rename_i hstatus
    refine ⟨hstatus, ?_⟩
    by_contra hcondition
    rw [if_neg hcondition] at h
    cases h
  all_goals first
    | cases h
    | (split_ifs at h; cases h)

theorem projection_waits_of_late {n : NodeExecutionRow} (hroutes : Routes graph n)
    (h : (lateProjection config env graph state n).waits = true) :
    (projection config env graph state n).waits = true := by
  obtain ⟨hstatus, hcondition⟩ := projection_waits h
  change n.nodeType = .condition at hcondition
  obtain ⟨node, hnode, _⟩ := hroutes hcondition
  have hlate : projection config env graph state { n with outputText := none } = _ :=
    projection_condition hstatus hcondition hnode
  rw [lateProjection, hlate, ofCompletion_waits] at h
  rw [projection_condition hstatus hcondition hnode, ofCompletion_waits]
  exact evaluateRouterOutput_waits h _

/-- An execution waits after its observation, or has ended. -/
theorem written_waits {n : NodeExecutionRow} (hroutes : Routes graph n)
    (h : (projection config env graph state n).waits = true) :
    (n.written (projection config env graph state n)).status = .awaitingHuman ∧
      routerWarning config env (n.written (projection config env graph state n)).outputText =
        none := by
  obtain ⟨hstatus, hcondition⟩ := projection_waits h
  obtain ⟨node, hnode, _⟩ := hroutes hcondition
  rw [projection_condition hstatus hcondition hnode] at h ⊢
  rw [ofCompletion_waits] at h
  rw [Projection.ofCompletion, if_pos h]
  exact ⟨rfl, routerWarning_pause h⟩

theorem written_ended {n : NodeExecutionRow} (hroutes : Routes graph n)
    (hterminal : state.status.isTerminal = true)
    (h : (projection config env graph state n).waits = false) :
    nodeTerminal (n.written (projection config env graph state n)).status = true := by
  cases hstatus : state.status with
  | succeeded =>
    by_cases hcondition : n.nodeType = .condition
    · obtain ⟨node, hnode, _⟩ := hroutes hcondition
      rw [projection_condition hstatus hcondition hnode] at h ⊢
      rw [ofCompletion_waits] at h
      rw [Projection.ofCompletion, if_neg (Bool.eq_false_iff.mp h)]
      rfl
    · rw [projection, hstatus]
      simp only [if_neg hcondition]
      rfl
  | cancelled | failed | crashed | auditFailed =>
    rw [projection, hstatus]
    rfl
  | _ => simp [hstatus, AgentRunStatus.isTerminal] at hterminal

end Rows

/-- All observations of a call, row by row. -/
theorem Db.projectAll_rows {config : Config} {env : Surroundings} {graph : WorkflowGraph}
    {view : ℕ → AgentRunState} {runId : ℕ} {seen : List (NodeExecutionRow × ℕ)} {db : Db}
    (hk : db.ExecutionKeys) (hseen : ∀ c ∈ seen, c.1 ∈ db.nodeExecutions ∧ c.1.runId = runId ∧
      nodeActive c.1.status = true) (honce : (seen.map (·.1.id)).Nodup) :
    ∃ g, (db.projectAll config env runId graph view seen).nodeExecutions =
        db.nodeExecutions.map g ∧
      (∀ c ∈ seen, g c.1 = c.1.written (projection config env graph (view c.2) c.1)) ∧
      ∀ n ∈ db.nodeExecutions, (∀ c ∈ seen, c.1 ≠ n) → Skips n (g n) := by
  induction seen generalizing db with
  | nil => exact ⟨id, by simp [projectAll], fun c hmem => absurd hmem List.not_mem_nil,
      fun n _ _ => Or.inl rfl⟩
  | cons c rest ih =>
    obtain ⟨hc, hown, hactive⟩ := hseen c List.mem_cons_self
    rw [List.map_cons, List.nodup_cons] at honce
    obtain ⟨g, hg, hwritten, hskips⟩ := project_rows hk hc hown hactive
      (projection config env graph (view c.2) c.1)
    -- The other observed rows are active, so that no skip reaches them.
    have hother : ∀ d ∈ rest, d.1 ≠ c.1 ∧ g d.1 = d.1 := by
      intro d hd
      obtain ⟨hmem, _, hactive'⟩ := hseen d (List.mem_cons_of_mem c hd)
      have hne : d.1 ≠ c.1 := fun heq => honce.1 (heq ▸ List.mem_map_of_mem hd)
      refine ⟨hne, (hskips d.1 hmem hne).eq_of_started fun hpending => ?_⟩
      rw [hpending] at hactive'
      cases hactive'
    have hsame : ∀ n ∈ db.nodeExecutions, SameRow n (g n) := by
      intro n hn
      by_cases hne : n = c.1
      · rw [hne, hwritten]
        exact projection_sameRow c.1
      · exact (hskips n hn hne).sameRow
    have hk' := hk.of_map hg hsame (by rw [project_frame])
    obtain ⟨g', hg', hwritten', hskips'⟩ := ih hk' (fun d hd => by
      obtain ⟨hmem, hrest⟩ := hseen d (List.mem_cons_of_mem c hd)
      refine ⟨?_, hrest⟩
      rw [hg, ← (hother d hd).2]
      exact List.mem_map_of_mem hmem) honce.2
    refine ⟨g' ∘ g, ?_, fun d hd => ?_, fun n hn hnot => ?_⟩
    · rw [projectAll, List.foldl_cons]
      rw [projectAll] at hg'
      rw [hg', hg, List.map_map]
    · rw [Function.comp_apply]
      rcases List.mem_cons.mp hd with rfl | hd
      · rw [hwritten]
        have hmem : d.1.written (projection config env graph (view d.2) d.1) ∈
            (db.project runId d.1 (projection config env graph (view d.2) d.1)).nodeExecutions := by
          rw [hg, ← hwritten]
          exact List.mem_map_of_mem hc
        refine (hskips' _ hmem fun e he heq => ?_).eq_of_started ?_
        · refine honce.1 (List.mem_map.mpr ⟨e, he, ?_⟩)
          rw [heq]
          exact (projection_sameRow d.1).id
        · refine NodeExecutionRow.written_started (fun hpending => ?_) _
          rw [hpending] at hactive
          cases hactive
      · rw [(hother d hd).2]
        exact hwritten' d hd
    · rw [Function.comp_apply]
      have hne : n ≠ c.1 := fun heq => hnot c List.mem_cons_self heq.symm
      have hstep := hskips n hn hne
      refine hstep.trans (hskips' (g n) ?_ fun d hd heq => ?_)
      · rw [hg]
        exact List.mem_map_of_mem hn
      · refine hnot d (List.mem_cons_of_mem c hd) ?_
        refine List.inj_on_of_nodup_map hk.ids (hseen d (List.mem_cons_of_mem c hd)).1 hn ?_
        rw [heq]
        exact (hsame n hn).id

end VibeKanban.Runtime
