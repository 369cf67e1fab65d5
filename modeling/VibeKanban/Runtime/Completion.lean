import VibeKanban.Runtime.Orders

/-! When the reconciliation of a run reports that all its agent runs have completed. -/
namespace VibeKanban.Runtime
open Lib Workflow Router

/-- What a call sees of one execution: its agent run, none where that is unavailable or not found, and
the worktree if its router asks for it. -/
structure Sighting where
  agentRun : Option AgentRunState
  worktree : Option WorktreeSnapshot

/-- What the answers of the ports add to the record of a call, newest first. -/
def Stmt.sees : (s : Stmt) → s.Ans → List Sighting → List Sighting
  | port (.queryAgentRun _), .ok state, seen => ⟨state, none⟩ :: seen
  | port (.worktreeSnapshot _), .ok snapshot, sighting :: seen =>
    { sighting with worktree := snapshot } :: seen
  | _, _, seen => seen

abbrev Stmt.Observes (config : Config) :
    (s : Stmt) → Db × List Sighting → s.Ans → Db × List Sighting → Prop :=
  Prog.recorded Stmt.sees (Stmt.Exec config.router.json.fromStr)

section Boundary
variable (config : Config) (runId : ℕ)

/-- The graph of a run and its active executions, when it has an orchestration. -/
def activeExecutions : Program (Option (WorkflowGraph × List (NodeExecutionRow × ℕ))) := do
  match ← Program.read fun db => (db.run? runId).bind (·.orchestrationRunId) with
  | none => return none
  | some orchestration => do
    Program.require (Program.exec (.port (.reconcileOrchestration orchestration)))
    let arenas ← Program.read fun db => db.arenaRuns runId
    Prog.forEach (fun arena : ℕ =>
      Program.require (Program.exec (.port (.reconcileOrchestration arena)))) arenas
    let run ← loadRuntimeRun runId
    let rows ← Program.read fun db => db.linkedExecutions runId orchestration
    return some (run.graph, rows)

def reconcileActive :
    Option (WorkflowGraph × List (NodeExecutionRow × ℕ)) → Program AgentRunReconciliationResult
  | none => return ⟨false, false, false, false⟩
  | some (graph, rows) =>
    reconcileExecutions config runId graph ⟨false, false, false, false⟩ (!rows.isEmpty) rows

theorem reconcileBoundary_eq :
    reconcileBoundary config runId = activeExecutions runId >>= reconcileActive config runId := by
  rw [reconcileBoundary, activeExecutions, Prog.bind_assoc]
  congr 1
  funext orchestration
  cases orchestration with
  | none => rfl
  | some orchestration =>
    simp only [Prog.bind_assoc]
    rfl

end Boundary

section Loop
variable (config : Config) (graph : WorkflowGraph)

def routerPauses (n : NodeExecutionRow) (worktree : Option WorktreeSnapshot) (state : AgentRunState) :
    Bool :=
  decide (n.nodeType = .condition) &&
    (routerCompletion config graph n.nodeId (state.terminalOutput.getD "")
      (routerWarning config { Surroundings.plain with worktree } n.outputText)).any (·.shouldPause)

/-- Seen as succeeded, and nobody is asked. -/
def settles (n : NodeExecutionRow) (seen : Sighting) : Bool :=
  seen.agentRun.any fun state =>
    decide (state.status = .succeeded) && !routerPauses config graph n seen.worktree state

/-- Every active execution was observed with a run that succeeded, and nothing waits for a human. -/
def CompletionSound (rows : List (NodeExecutionRow × ℕ)) (seen : List Sighting)
    (result : AgentRunReconciliationResult) : Prop :=
  result.completed = true → result.awaitingHuman = false ∧
    ∀ c ∈ rows.zip seen, settles config graph c.1.1 c.2 = true

variable {config graph} {runId : ℕ} {db db' : Db} {older final : List Sighting}

theorem unrecorded_update {origin : NodeWrite} {nodeId : String} {iteration : ℤ}
    {update : NodeExecutionUpdate} : Prog.Unrecorded Stmt.sees
      (Stmt.Exec config.router.json.fromStr)
      (Program.exec (.updateNodeExecution origin runId nodeId iteration update)) :=
  Prog.unrecorded_stmt fun _ _ => rfl

theorem unrecorded_markNodeAwaitingInput {n : NodeExecutionRow} : Prog.Unrecorded Stmt.sees
    (Stmt.Exec config.router.json.fromStr) (markNodeAwaitingInput runId n) := by
  unfold markNodeAwaitingInput
  split_ifs
  · exact Prog.unrecorded_stmt fun _ _ => rfl
  · exact Prog.unrecorded_ret

theorem unrecorded_updateRunStatus {status : WorkflowRunStatus} {outputText errorText : Option String} :
    Prog.Unrecorded Stmt.sees (Stmt.Exec config.router.json.fromStr)
      (updateRunStatus runId status outputText errorText) :=
  Prog.unrecorded_stmt fun _ _ => rfl

theorem unrecorded_markSkippedTargets {targets : List String} :
    Prog.Unrecorded Stmt.sees (Stmt.Exec config.router.json.fromStr)
      (markSkippedTargets runId targets) := by
  refine Prog.unrecorded_forEach (fun target => ?_) targets
  refine Prog.unrecorded_bind (Prog.unrecorded_stmt fun _ _ => rfl) fun pending => ?_
  cases pending with
  | none => exact Prog.unrecorded_ret
  | some n => exact Prog.unrecorded_stmt fun _ _ => rfl

theorem unrecorded_activeExecutions : Prog.Unrecorded Stmt.sees
    (Stmt.Exec config.router.json.fromStr) (activeExecutions runId) := by
  have hport (orchestration : ℕ) : Prog.Unrecorded Stmt.sees
      (Stmt.Exec config.router.json.fromStr)
      (Program.require (Program.exec (.port (.reconcileOrchestration orchestration)))) :=
    Prog.unrecorded_bind (Prog.unrecorded_stmt fun _ _ => rfl) fun _ => Prog.unrecorded_ofExcept
  have hread {β : Type} (f : Db → β) : Prog.Unrecorded Stmt.sees
      (Stmt.Exec config.router.json.fromStr) (Program.read f) :=
    Prog.unrecorded_stmt fun _ _ => rfl
  refine Prog.unrecorded_bind (hread _) fun orchestration => ?_
  cases orchestration with
  | none => exact Prog.unrecorded_ret
  | some orchestration =>
    refine Prog.unrecorded_bind (hport orchestration) fun _ => ?_
    refine Prog.unrecorded_bind (hread _) fun arenas => ?_
    refine Prog.unrecorded_bind (Prog.unrecorded_forEach hport arenas) fun _ => ?_
    refine Prog.unrecorded_bind (Prog.unrecorded_bind (hread _) fun run => ?_) fun run => ?_
    · cases run with
      | none => exact Prog.unrecorded_fail
      | some run => exact Prog.unrecorded_ret
    · exact Prog.unrecorded_bind (hread _) fun rows => Prog.unrecorded_ret

theorem exec_routerMutationWarning {outputText warning : Option String}
    {state : Option AgentRunState}
    (h : Prog.Exec (Stmt.Observes config) (routerMutationWarning config runId outputText)
      (db, ⟨state, none⟩ :: older) (.ok warning) (db', final)) :
    ∃ worktree, final = ⟨state, worktree⟩ :: older ∧
      warning = routerWarning config { Surroundings.plain with worktree } outputText := by
  unfold routerMutationWarning at h
  unfold routerWarning
  cases hbefore : routerPreWorktreeFingerprint config outputText with
  | none =>
    rw [hbefore] at h
    obtain ⟨rfl, hsame⟩ := Prog.exec_ret h
    exact ⟨none, (Prod.mk.inj hsame).2.symm, rfl⟩
  | some before =>
    rw [hbefore] at h
    obtain ⟨after, y, hrequire, hrest⟩ := Prog.exec_bind_ok h
    obtain ⟨answer, z, hport, hof⟩ := Prog.exec_bind_ok hrequire
    cases answer with
    | error message => cases hof
    | ok snapshot =>
      obtain ⟨rfl, rfl⟩ := Prog.exec_ret hof
      have hseen : z.2 = ⟨state, snapshot⟩ :: older := (Prog.exec_stmt hport).2
      refine ⟨snapshot, ?_⟩
      rw [Option.bind_some]
      cases snapshot with
      | none =>
        obtain ⟨rfl, rfl⟩ := Prog.exec_ret hrest
        exact ⟨hseen, rfl⟩
      | some after =>
        simp only at hrest
        rw [Option.bind_some]
        split_ifs at hrest ⊢ with hsame
        · obtain ⟨rfl, rfl⟩ := Prog.exec_ret hrest
          exact ⟨hseen, rfl⟩
        · obtain ⟨rfl, rfl⟩ := Prog.exec_ret hrest
          exact ⟨hseen, rfl⟩

theorem exec_completeConditionRouter {n : NodeExecutionRow} {state : AgentRunState} {pauses : Bool}
    (hcondition : n.nodeType = .condition)
    (h : Prog.Exec (Stmt.Observes config) (completeConditionRouter config runId graph n.nodeId
      n.iteration n.outputText (state.terminalOutput.getD "")) (db, ⟨some state, none⟩ :: older)
      (.ok pauses) (db', final)) :
    ∃ worktree, final = ⟨some state, worktree⟩ :: older ∧
      pauses = routerPauses config graph n worktree state := by
  unfold completeConditionRouter at h
  simp only [routerPauses, decide_eq_true hcondition, Bool.true_and, routerCompletion]
  cases hnode : graph.nodes.find? fun node => node.id == n.nodeId with
  | none =>
    rw [hnode] at h
    cases h
  | some node =>
    rw [hnode] at h
    simp only at h
    split_ifs at h with hkind
    · cases h
    · obtain ⟨warning, ⟨y, seen⟩, hwarning, hrest⟩ := Prog.exec_bind_ok h
      obtain ⟨worktree, rfl, rfl⟩ := exec_routerMutationWarning hwarning
      refine ⟨worktree, ?_⟩
      simp only [Option.map_some, Option.any_some]
      split_ifs at hrest with hpause
      · obtain ⟨_, y₁, hmark, hrest⟩ := Prog.exec_bind_ok hrest
        obtain ⟨_, y₂, hrun, hrest⟩ := Prog.exec_bind_ok hrest
        obtain ⟨rfl, rfl⟩ := Prog.exec_ret hrest
        have hmarked := unrecorded_update _ _ _ hmark
        have hwritten := unrecorded_updateRunStatus _ _ _ hrun
        exact ⟨hwritten.trans hmarked, rfl⟩
      · obtain ⟨_, y₁, hmark, hrest⟩ := Prog.exec_bind_ok hrest
        obtain ⟨_, y₂, hskip, hrest⟩ := Prog.exec_bind_ok hrest
        obtain ⟨rfl, rfl⟩ := Prog.exec_ret hrest
        have hmarked := unrecorded_update _ _ _ hmark
        have hwritten := unrecorded_markSkippedTargets _ _ _ hskip
        exact ⟨hwritten.trans hmarked, rfl⟩

theorem exec_reconcileExecutions {rows : List (NodeExecutionRow × ℕ)}
    {outcome result : AgentRunReconciliationResult} {settled : Bool}
    (h : Prog.Exec (Stmt.Observes config)
      (reconcileExecutions config runId graph outcome settled rows) (db, older) (.ok result)
      (db', final)) :
    ∃ seen, final = seen.reverse ++ older ∧ seen.length = rows.length ∧
      result.completed = (settled && !outcome.awaitingHuman && !outcome.failed &&
        !outcome.cancelled &&
        (rows.zip seen).all fun c => c.2.agentRun.isNone || settles config graph c.1.1 c.2) ∧
      (result.completed = true → result.awaitingHuman = false) := by
  induction rows generalizing outcome settled db older with
  | nil =>
    obtain ⟨rfl, hsame⟩ := Prog.exec_ret h
    refine ⟨[], (Prod.mk.inj hsame).2.symm, rfl, by simp, fun hreported => ?_⟩
    simp only [Bool.and_eq_true, Bool.not_eq_true'] at hreported
    exact hreported.1.1.2
  | cons c rest ih =>
    obtain ⟨n, agentRunId⟩ := c
    rw [reconcileExecutions] at h
    obtain ⟨state?, ⟨y, seen₁⟩, hrequire, hrest⟩ := Prog.exec_bind_ok h
    obtain ⟨answer, ⟨z, seen₂⟩, hport, hof⟩ := Prog.exec_bind_ok hrequire
    -- What is left of the loop, when the round has seen this and changed the result accordingly.
    have hnext {outcome' : AgentRunReconciliationResult} {settled' : Bool} {x : Db}
        (sighting : Sighting)
        (hrow : (settled' && !outcome'.awaitingHuman && !outcome'.failed && !outcome'.cancelled) =
          (settled && !outcome.awaitingHuman && !outcome.failed && !outcome.cancelled &&
            (sighting.agentRun.isNone || settles config graph n sighting)))
        (hrest : Prog.Exec (Stmt.Observes config)
          (reconcileExecutions config runId graph outcome' settled' rest) (x, sighting :: older)
          (.ok result) (db', final)) :
        ∃ seen, final = seen.reverse ++ older ∧ seen.length = ((n, agentRunId) :: rest).length ∧
          result.completed = (settled && !outcome.awaitingHuman && !outcome.failed &&
            !outcome.cancelled && (((n, agentRunId) :: rest).zip seen).all fun c =>
              c.2.agentRun.isNone || settles config graph c.1.1 c.2) ∧
          (result.completed = true → result.awaitingHuman = false) := by
      obtain ⟨seen, rfl, hlength, hcompleted, hnotWaiting⟩ := ih hrest
      refine ⟨sighting :: seen, ?_, congrArg (· + 1) hlength, ?_, hnotWaiting⟩
      · rw [List.reverse_cons, List.append_assoc]
        rfl
      · rw [hcompleted, hrow, List.zip_cons_cons, List.all_cons, Bool.and_assoc]
    cases answer with
    | error message => cases hof
    | ok answered =>
      obtain ⟨rfl, hsame⟩ := Prog.exec_ret hof
      obtain ⟨rfl, rfl⟩ := Prod.mk.inj hsame
      obtain rfl : seen₂ = ⟨answered, none⟩ :: older := (Prog.exec_stmt hport).2
      cases answered with
      | none => exact hnext ⟨none, none⟩ (by simp) hrest
      | some state =>
        simp only at hrest
        cases hstatus : state.status with
        | succeeded =>
          rw [hstatus] at hrest
          simp only at hrest
          split_ifs at hrest with hcondition
          · obtain ⟨pauses, ⟨x, seen⟩, hrouter, hrest⟩ := Prog.exec_bind_ok hrest
            obtain ⟨worktree, rfl, rfl⟩ := exec_completeConditionRouter hcondition hrouter
            refine hnext _ ?_ hrest
            simp only [Option.isNone_some, settles, Option.any_some, hstatus, decide_true]
            cases routerPauses config graph n worktree state <;> simp
          · obtain ⟨_, ⟨x, seen⟩, hmark, hrest⟩ := Prog.exec_bind_ok hrest
            obtain rfl : seen = ⟨some state, none⟩ :: older := unrecorded_update _ _ _ hmark
            refine hnext _ ?_ hrest
            simp [settles, hstatus, routerPauses, hcondition]
        | awaitingInput | awaitingApproval =>
          rw [hstatus] at hrest
          obtain ⟨_, ⟨x, seen⟩, hmark, hrest⟩ := Prog.exec_bind_ok hrest
          obtain rfl : seen = ⟨some state, none⟩ :: older := by
            refine unrecorded_markNodeAwaitingInput _ _ _ hmark
          exact hnext _ (by simp [settles, hstatus]) hrest
        | cancelled | failed | crashed | auditFailed =>
          rw [hstatus] at hrest
          obtain ⟨_, ⟨x, seen⟩, hmark, hrest⟩ := Prog.exec_bind_ok hrest
          obtain rfl : seen = ⟨some state, none⟩ :: older := unrecorded_update _ _ _ hmark
          exact hnext _ (by simp [settles, hstatus]) hrest
        | pending | starting | running | cancelling =>
          rw [hstatus] at hrest
          exact hnext _ (by simp [settles, hstatus]) hrest

theorem reconcileActive_sound_iff {rows : List (NodeExecutionRow × ℕ)} {seen : List Sighting}
    {result : AgentRunReconciliationResult}
    (h : Prog.Exec (Stmt.Observes config) (reconcileActive config runId (some (graph, rows))) (db, [])
      (.ok result) (db', seen.reverse)) :
    seen.length = rows.length ∧
      (CompletionSound config graph rows seen result ↔ (∀ s ∈ seen, s.agentRun ≠ none) ∨
        ∃ c ∈ rows.zip seen, c.2.agentRun ≠ none ∧ settles config graph c.1.1 c.2 = false) := by
  obtain ⟨seen', hseen, hlength, hcompleted, hnotWaiting⟩ := exec_reconcileExecutions h
  rw [List.append_nil, List.reverse_inj] at hseen
  subst hseen
  refine ⟨hlength, ?_⟩
  simp only [Bool.not_false, Bool.and_true] at hcompleted
  have hunseen (s : Sighting) (hnone : s.agentRun = none) (n : NodeExecutionRow) :
      settles config graph n s = false := by
    rw [settles, hnone, Option.any_none]
  constructor
  · intro hsound
    by_contra hnot
    push Not at hnot
    obtain ⟨⟨s, hs, hnone⟩, hsettled⟩ := hnot
    rw [← List.map_snd_zip hlength.le] at hs
    obtain ⟨c, hc, rfl⟩ := List.mem_map.mp hs
    have hreported : result.completed = true := by
      rw [hcompleted, Bool.and_eq_true, List.all_eq_true]
      constructor
      · cases rows with
        | nil => cases hc
        | cons _ _ => rfl
      · intro c hc
        rw [Bool.or_eq_true, Option.isNone_iff_eq_none]
        by_cases hstate : c.2.agentRun = none
        · exact Or.inl hstate
        · exact Or.inr (Bool.eq_true_of_not_eq_false (hsettled c hc hstate))
    have hsettles := (hsound hreported).2 c hc
    rw [hunseen c.2 hnone] at hsettles
    cases hsettles
  · intro hcondition hreported
    refine ⟨hnotWaiting hreported, ?_⟩
    rw [hcompleted, Bool.and_eq_true, List.all_eq_true] at hreported
    obtain havailable | ⟨c, hc, hseen, hunsettled⟩ := hcondition
    · intro c hc
      have hsettles := hreported.2 c hc
      rw [Bool.or_eq_true, Option.isNone_iff_eq_none] at hsettles
      exact hsettles.resolve_left (havailable c.2 (List.of_mem_zip hc).2)
    · have hsettles := hreported.2 c hc
      rw [hunsettled, Bool.or_false, Option.isNone_iff_eq_none] at hsettles
      exact absurd hsettles hseen

end Loop

/-- Every call of the boundary has its record. -/
theorem reconcileBoundary_recorded {config : Config} {runId : ℕ} {db db' : Db}
    {result : Except String AgentRunReconciliationResult}
    (h : Prog.Exec (Stmt.Exec config.router.json.fromStr) (reconcileBoundary config runId) db result
      db') : ∃ seen : List Sighting, Prog.Exec (Stmt.Observes config)
      (reconcileBoundary config runId) (db, []) result (db', seen.reverse) := by
  obtain ⟨after, hrecorded⟩ := h.recorded Stmt.sees []
  refine ⟨after.reverse, ?_⟩
  rw [List.reverse_reverse]
  exact hrecorded

/-- The boundary reports completion soundly exactly when no active agent run is unavailable or not found,
or another one has not succeeded or waits for a human. -/
theorem reconcileBoundary_completion {config : Config} {runId : ℕ} {db db' : Db}
    {seen : List Sighting} {result : AgentRunReconciliationResult}
    (h : Prog.Exec (Stmt.Observes config) (reconcileBoundary config runId) (db, []) (.ok result)
      (db', seen.reverse)) :
    ∃ active y, Prog.Exec (Stmt.Observes config) (activeExecutions runId) (db, []) (.ok active)
        (y, []) ∧
      Prog.Exec (Stmt.Observes config) (reconcileActive config runId active) (y, []) (.ok result)
        (db', seen.reverse) ∧
      (active = none → result.completed = false) ∧
      ∀ graph rows, active = some (graph, rows) → seen.length = rows.length ∧
        (CompletionSound config graph rows seen result ↔ (∀ s ∈ seen, s.agentRun ≠ none) ∨
          ∃ c ∈ rows.zip seen, c.2.agentRun ≠ none ∧ settles config graph c.1.1 c.2 = false) := by
  rw [reconcileBoundary_eq] at h
  obtain ⟨active, ⟨y, before⟩, hactive, hrest⟩ := Prog.exec_bind_ok h
  obtain rfl : before = [] := unrecorded_activeExecutions _ _ _ hactive
  refine ⟨active, y, hactive, hrest, ?_, ?_⟩
  · rintro rfl
    obtain ⟨rfl, -⟩ := Prog.exec_ret hrest
    rfl
  · rintro graph rows rfl
    exact reconcileActive_sound_iff hrest

def Stmt.answerAs (config : Config) (agentRun : ℕ → Option AgentRunState) :
    (s : Stmt) → Db → Option (s.Ans × Db)
  | port (.queryAgentRun agentRunId), db => some (.ok (agentRun agentRunId), db)
  | port call, db => some (call.accept, db)
  | s, db => s.run config.router.json.fromStr db

theorem Stmt.answerAs_exec {config : Config} {agentRun : ℕ → Option AgentRunState} (s : Stmt)
    (db : Db) (a : s.Ans) (db' : Db) (h : s.answerAs config agentRun db = some (a, db')) :
    s.Exec config.router.json.fromStr db a db' := by
  cases s with
  | port call =>
    cases call with
    | createArena =>
      obtain rfl : db = db' := run_snd h
      exact .inl ⟨db.orchestration, rfl⟩
    | _ =>
      obtain rfl : db = db' := run_snd h
      exact ⟨db.orchestration, rfl⟩
  | _ => exact h

def forkAgents (first : Option AgentRunState) (agentRunId : ℕ) : Option AgentRunState :=
  if agentRunId = 10 then first else some ⟨.succeeded, some "done", none⟩

/-- The call on the fork whose first agent run has this status, and what it reports. -/
def ForkReports (status : AgentRunStatus) (completed : Bool) : Prop :=
  ∃ db' active y result, ∃ seen : List Sighting,
    Prog.Exec (Stmt.Observes Config.plain) (reconcileBoundary Config.plain 1) (forkDb, [])
      (.ok result) (db', seen.reverse) ∧
    Prog.Exec (Stmt.Observes Config.plain) (activeExecutions 1) (forkDb, []) (.ok active)
      (y, []) ∧
    seen.map (·.agentRun.map (·.status)) = [some status, some .succeeded] ∧
    result.completed = completed ∧
    ∀ graph rows, active = some (graph, rows) → CompletionSound Config.plain graph rows seen result

theorem reconcileBoundary_completion_fork :
    ForkReports .running false ∧ ForkReports .succeeded true := by
  have hreports : ∀ c ∈ [(AgentRunStatus.running, false), (.succeeded, true)], ForkReports c.1 c.2 := by
    intro c hc
    let seen : List Sighting := [⟨some ⟨c.1, none, none⟩, none⟩, ⟨some ⟨.succeeded, some "done", none⟩, none⟩]
    have hplayed : ((reconcileBoundary Config.plain 1).play (Prog.runRecorded Stmt.sees
        (Stmt.answerAs Config.plain (forkAgents (some ⟨c.1, none, none⟩)))) (forkDb, [])).map
          (fun r => (r.1, r.2.2)) = some (.ok ⟨c.2, false, false, false⟩, seen.reverse) := by
      obtain rfl | hc := List.mem_cons.mp hc
      · rfl
      · obtain rfl := List.mem_singleton.mp hc
        rfl
    obtain ⟨⟨_, db', _⟩, hplay, hends⟩ := Option.map_eq_some_iff.mp hplayed
    obtain ⟨rfl, rfl⟩ := Prod.mk.inj hends
    have hexec := Prog.exec_of_play (Prog.runRecorded_recorded Stmt.answerAs_exec) hplay
    obtain ⟨active, y, hactive, -, -, hiff⟩ := reconcileBoundary_completion hexec
    refine ⟨db', active, y, _, seen, hexec, hactive, rfl, rfl, ?_⟩
    intro graph rows hrows
    refine ((hiff graph rows hrows).2).mpr (.inl ?_)
    intro s hs
    obtain rfl | hs := List.mem_cons.mp hs
    · exact Option.some_ne_none _
    · obtain rfl := List.mem_singleton.mp hs
      exact Option.some_ne_none _
  exact ⟨hreports _ List.mem_cons_self, hreports _ (List.mem_cons_of_mem _ List.mem_cons_self)⟩

/-- An agent run that cannot be asked does not hold the report back. -/
theorem completion_unobserved : ¬ ∀ (config : Config) (runId : ℕ) (db y db' : Db)
    (graph : WorkflowGraph) (rows : List (NodeExecutionRow × ℕ)) (seen : List Sighting)
    (result : AgentRunReconciliationResult),
    Prog.Exec (Stmt.Observes config) (activeExecutions runId) (db, []) (.ok (some (graph, rows)))
      (y, []) →
    Prog.Exec (Stmt.Observes config) (reconcileActive config runId (some (graph, rows))) (y, [])
      (.ok result) (db', seen.reverse) →
    CompletionSound config graph rows seen result := by
  intro h
  let seen : List Sighting := [⟨none, none⟩, ⟨some ⟨.succeeded, some "done", none⟩, none⟩]
  let run := Prog.runRecorded Stmt.sees (Stmt.answerAs Config.plain (forkAgents none))
  have hexec {α : Type} {p : Program α} {x y : Db × List Sighting} {r : Except String α}
      (hplay : p.play run x = some (r, y)) : Prog.Exec (Stmt.Observes Config.plain) p x r y :=
    Prog.exec_of_play (Prog.runRecorded_recorded Stmt.answerAs_exec) hplay
  have hrows : (activeExecutions 1).play run (forkDb, []) =
      some (.ok (some (forkGraph, forkChildren)), forkDb, []) := rfl
  have hplayed : ((reconcileActive Config.plain 1 (some (forkGraph, forkChildren))).play run
      (forkDb, [])).map (fun r => (r.1, r.2.2)) =
        some (.ok ⟨true, false, false, false⟩, seen.reverse) := rfl
  obtain ⟨⟨_, db', _⟩, hplay, hends⟩ := Option.map_eq_some_iff.mp hplayed
  obtain ⟨rfl, rfl⟩ := Prod.mk.inj hends
  have hsound := h _ _ _ _ _ _ _ seen _ (hexec hrows) (hexec hplay) rfl
  have hsettled := hsound.2 (forkChildren.head (by decide), ⟨none, none⟩) List.mem_cons_self
  cases hsettled

end VibeKanban.Runtime
