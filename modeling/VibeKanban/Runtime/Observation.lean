import Mathlib
import VibeKanban.Router.Agreement
import VibeKanban.Runtime.Absorption

/-! Reconciliation calls on a run while its agent runs end one after another. -/
namespace VibeKanban.Runtime
open Lib Workflow Router

/-- A stored agent run as the port answers it. -/
def Db.agentRun? (db : Db) (agentRunId : ℕ) : Option AgentRunState :=
  (db.orchestration.agentRuns.find? fun s => s.agentRunId = agentRunId).map fun s =>
    ⟨s.status, s.outputText, s.errorText⟩

/-- Some agent runs reach their outcome. -/
def reached (outcome : ℕ → AgentRunState) (batch : List ℕ) :
    List AgentRunStateRow → List AgentRunStateRow :=
  updateWhere (fun s => batch.contains s.agentRunId) fun s => ⟨s.agentRunId,
    (outcome s.agentRunId).status, (outcome s.agentRunId).terminalOutput,
    (outcome s.agentRunId).lastError⟩

def Db.reach (outcome : ℕ → AgentRunState) (batch : List ℕ) (db : Db) : Db :=
  { db with orchestration := { db.orchestration with
      agentRuns := reached outcome batch db.orchestration.agentRuns } }

/-- What surrounds the calls: the worktree, and ports that answer the same in the same state. -/
structure Surroundings where
  worktree : Option WorktreeSnapshot
  answer : (call : Port) → Db → call.Ans × Db
  moves : ∀ (call : Port) (db : Db), call.Moves db (answer call db).2

/-- Accepting ports and no repository. -/
def Surroundings.plain : Surroundings where
  worktree := none
  answer call db := (call.accept, db)
  moves call db := by
    cases call with
    | createArena => exact Or.inl ⟨db.orchestration, rfl⟩
    | _ => exact ⟨db.orchestration, rfl⟩

section Calls
variable (config : Config) (env : Surroundings) (passes runId : ℕ) (outcome : ℕ → AgentRunState)

/-- A statement of a call: agent runs answer as they are stored. -/
def Stmt.observe : (s : Stmt) → Db → Option (s.Ans × Db)
  | port (.queryAgentRun agentRunId), db => some (.ok (db.agentRun? agentRunId), db)
  | port (.reconcileOrchestration _), db => some (.ok (), db)
  | port (.worktreeSnapshot _), db => some (.ok env.worktree, db)
  | port call, db => some (env.answer call db)
  | s, db => s.run config.router.json.fromStr db

theorem Stmt.observe_exec (s : Stmt) {db db' : Db} {a : s.Ans}
    (h : s.observe config env db = some (a, db')) : s.Exec config.router.json.fromStr db a db' := by
  cases s with
  | port call =>
    have hmoves := env.moves call db
    cases call with
    | queryAgentRun | reconcileOrchestration | worktreeSnapshot =>
      obtain rfl : db = db' := run_snd h
      exact ⟨db.orchestration, rfl⟩
    | _ =>
      have hdb : (env.answer _ db).2 = db' := run_snd h
      exact hdb ▸ hmoves
  | _ => exact h

/-- Some agent runs end and the run is reconciled with them. -/
def observeBatch (db : Db) (batch : List ℕ) : Option Db :=
  ((reconcileWorkflowRun config passes runId).play (Stmt.observe config env)
    (db.reach outcome batch)).map Prod.snd

/-- The status of the run after an order of observations. -/
def finalStatus (db : Db) (order : List (List ℕ)) : Option WorkflowRunStatus :=
  (order.foldlM (observeBatch config env passes runId outcome) db).bind (·.runStatus? runId)

end Calls

/-- An order of observations: every agent run ends before one of the calls, and the last call
follows an end. -/
structure Observes (agents : List ℕ) (order : List (List ℕ)) : Prop where
  each : order.flatten.Perm agents
  last : order.getLast? ≠ some []

section Projection
variable (config : Config) (env : Surroundings) (graph : WorkflowGraph)

def routerWarning (startedOutputText : Option String) : Option String :=
  (routerPreWorktreeFingerprint config startedOutputText).bind fun before =>
    env.worktree.bind fun after => if before = after.fingerprint then none
      else some "Worktree status changed while the Condition router was running"

/-- What the router of a Condition decides. -/
def routerCompletion (nodeId rawOutput : String) (warning : Option String) :
    Option ConditionRouterCompletion :=
  (graph.nodes.find? fun node => node.id == nodeId).map fun node =>
    evaluateRouterOutput config.router rawOutput graph node warning

/-- What the observation of one agent run writes: its execution, a run whose router waits, and the
targets that are skipped. -/
structure Projection where
  update : Option NodeExecutionUpdate
  waits : Bool
  skipped : List String

def AgentRunStatus.isFailure : AgentRunStatus → Bool
  | .failed | .crashed | .auditFailed => true
  | _ => false

/-- Started and not waiting for anybody. -/
def AgentRunStatus.isUnderWay : AgentRunStatus → Bool
  | .pending | .starting | .running | .cancelling => true
  | _ => false

/-- Waiting for input or approval. -/
def AgentRunStatus.asks : AgentRunStatus → Bool
  | .awaitingInput | .awaitingApproval => true
  | _ => false

theorem AgentRunStatus.not_asks {status : AgentRunStatus} (h : status.isTerminal = true) :
    status.asks = false := by
  cases status <;> first | rfl | cases h

theorem succeeded_started : NodeExecutionStatus.succeeded ≠ .pending := by decide
theorem cancelled_started : NodeExecutionStatus.cancelled ≠ .pending := by decide
theorem failed_started : NodeExecutionStatus.failed ≠ .pending := by decide

def Projection.ofCompletion (completion : ConditionRouterCompletion) : Projection :=
  if completion.shouldPause then
    ⟨some ⟨.awaitingHuman, some completion.outputText, none, none, awaitingHuman_started⟩, true,
      []⟩
  else ⟨some ⟨.succeeded, some completion.outputText, none, none, succeeded_started⟩, false,
    completion.skippedTargetNodeIds⟩

/-- Nothing is written for an agent run that is under way. -/
def Projection.none : Projection := ⟨.none, false, []⟩

/-- The write for an agent run that asks for something. -/
def askingUpdate : NodeExecutionUpdate := ⟨.awaitingHuman, .none, .none, .none, awaitingHuman_started⟩

def projection (state : AgentRunState) (n : NodeExecutionRow) : Projection :=
  match state.status with
  | .succeeded =>
    if n.nodeType = .condition then
      ((routerCompletion config graph n.nodeId (state.terminalOutput.getD "")
        (routerWarning config env n.outputText)).map .ofCompletion).getD .none
    else
      ⟨some ⟨.succeeded, state.terminalOutput, .none, .none, succeeded_started⟩, false, []⟩
  | .cancelled =>
    ⟨some ⟨.cancelled, .none, .none, some (agentFailure state), cancelled_started⟩, false,
      []⟩
  | .failed | .crashed | .auditFailed =>
    ⟨some ⟨.failed, .none, .none, some (agentFailure state), failed_started⟩, false, []⟩
  | .awaitingInput | .awaitingApproval =>
    if n.status = .awaitingHuman then .none else ⟨some askingUpdate, false, []⟩
  | .pending | .starting | .running | .cancelling => .none

def Db.updated (runId : ℕ) (n : NodeExecutionRow) (db : Db) : Option NodeExecutionUpdate → Db
  | some update => db.updateNodeExecution runId n.nodeId n.iteration update
  | none => db

/-- The writes of one observation. -/
def Db.project (runId : ℕ) (n : NodeExecutionRow) (p : Projection) (db : Db) : Db :=
  p.skipped.foldl (fun db target => db.skipTarget runId target)
    (if p.waits then (db.updated runId n p.update).updateRunStatus runId .awaitingHuman none none
      else db.updated runId n p.update)

end Projection

/-- The outcome with one more observation. -/
def AgentRunReconciliationResult.see (outcome : AgentRunReconciliationResult)
    (status : AgentRunStatus) (waits : Bool) : AgentRunReconciliationResult :=
  { outcome with
    failed := outcome.failed || status.isFailure
    awaitingHuman := outcome.awaitingHuman || (waits || status.asks)
    cancelled := outcome.cancelled || decide (status = .cancelled) }

def AgentRunReconciliationResult.conclude (outcome : AgentRunReconciliationResult)
    (settled : Bool) : AgentRunReconciliationResult :=
  { outcome with completed := settled && !outcome.awaitingHuman && !outcome.failed &&
      !outcome.cancelled }

section Play
variable {config : Config} {env : Surroundings} {runId : ℕ} {graph : WorkflowGraph}

theorem play_markSkippedTargets (targets : List String) (db : Db) :
    (markSkippedTargets runId targets).play (Stmt.observe config env) db =
      some (.ok (), targets.foldl (fun db target => db.skipTarget runId target) db) := by
  refine Prog.play_forEach (fun target db => ?_) targets db
  refine (Prog.play_bind (a := db.pendingTarget runId target) rfl).trans ?_
  rw [Db.skipTarget]
  cases db.pendingTarget runId target with
  | none => rfl
  | some n => rfl

theorem play_routerMutationWarning (startedOutputText : Option String) (db : Db) :
    (routerMutationWarning config runId startedOutputText).play (Stmt.observe config env) db =
      some (.ok (routerWarning config env startedOutputText), db) := by
  rw [routerMutationWarning, routerWarning]
  cases routerPreWorktreeFingerprint config startedOutputText with
  | none => rfl
  | some before =>
    refine (Prog.play_bind (a := env.worktree) rfl).trans ?_
    rw [Option.bind_some]
    cases env.worktree with
    | none => rfl
    | some after =>
      rw [Option.bind_some]
      dsimp only
      split_ifs
      · rfl
      · rfl

/-- Evaluating a router is one observation. -/
theorem play_completeConditionRouter {n : NodeExecutionRow} {node : WorkflowNode}
    (hnode : (graph.nodes.find? fun node => node.id == n.nodeId) = some node)
    (hkind : node.kind = .condition) (rawOutput : String) (db : Db) :
    (completeConditionRouter config runId graph n.nodeId n.iteration n.outputText rawOutput).play
        (Stmt.observe config env) db =
      some (.ok (Projection.ofCompletion (evaluateRouterOutput config.router rawOutput graph node
          (routerWarning config env n.outputText))).waits,
        db.project runId n (Projection.ofCompletion (evaluateRouterOutput config.router rawOutput
          graph node (routerWarning config env n.outputText)))) := by
  rw [completeConditionRouter, hnode]
  dsimp only
  rw [if_neg (not_not.mpr hkind)]
  refine (Prog.play_bind (play_routerMutationWarning n.outputText db)).trans ?_
  generalize evaluateRouterOutput config.router rawOutput graph node _ = completion
  cases hpause : completion.shouldPause with
  | true =>
    have hof : Projection.ofCompletion completion = _ := if_pos hpause
    rw [hof]
    rfl
  | false =>
    have hof : Projection.ofCompletion completion = _ := if_neg (by simp [hpause])
    rw [hof]
    refine (Prog.play_bind (y := db.updateNodeExecution runId n.nodeId n.iteration
      ⟨.succeeded, some completion.outputText, none, none, by decide⟩) rfl).trans ?_
    exact (Prog.play_bind (play_markSkippedTargets _ _)).trans rfl

/-- The node of a Condition is in the graph of its run. -/
def Routes (graph : WorkflowGraph) (n : NodeExecutionRow) : Prop :=
  n.nodeType = .condition → ∃ node, (graph.nodes.find? fun node => node.id == n.nodeId) = some node ∧
    node.kind = .condition

/-- The observation of one agent run. -/
theorem play_reconcileExecutions_cons {n : NodeExecutionRow} {agentRunId : ℕ}
    {state : AgentRunState} {db : Db} (hstate : db.agentRun? agentRunId = some state)
    (hroutes : Routes graph n) (outcome : AgentRunReconciliationResult) (settled : Bool)
    (rest : List (NodeExecutionRow × ℕ)) :
    (reconcileExecutions config runId graph outcome settled ((n, agentRunId) :: rest)).play
        (Stmt.observe config env) db =
      (reconcileExecutions config runId graph
        (outcome.see state.status (projection config env graph state n).waits)
        (settled && !state.status.isUnderWay) rest).play (Stmt.observe config env)
          (db.project runId n (projection config env graph state n)) := by
  rw [reconcileExecutions]
  refine (Prog.play_bind (a := some state) (y := db) ?_).trans ?_
  · rw [← hstate]
    rfl
  obtain ⟨status, terminalOutput, lastError⟩ := state
  cases status with
  | succeeded =>
    by_cases hcondition : n.nodeType = .condition
    · obtain ⟨node, hnode, hkind⟩ := hroutes hcondition
      dsimp only
      rw [if_pos hcondition]
      refine (Prog.play_bind (play_completeConditionRouter hnode hkind _ db)).trans ?_
      simp [projection, hcondition, routerCompletion, hnode, AgentRunReconciliationResult.see,
        AgentRunStatus.isFailure, AgentRunStatus.isUnderWay, AgentRunStatus.asks]
    · dsimp only
      rw [if_neg hcondition]
      simp only [projection, if_neg hcondition, AgentRunReconciliationResult.see,
        AgentRunStatus.isFailure, AgentRunStatus.isUnderWay, AgentRunStatus.asks, Bool.or_false,
        Bool.not_false, Bool.and_true, reduceCtorEq, decide_false]
      rfl
  | awaitingInput | awaitingApproval =>
    simp only [projection, AgentRunReconciliationResult.see, AgentRunStatus.isFailure,
      AgentRunStatus.isUnderWay, AgentRunStatus.asks, Bool.or_false, Bool.or_true, Bool.not_false,
      Bool.and_true, reduceCtorEq, decide_false]
    by_cases hwaiting : n.status = .awaitingHuman
    · rw [if_pos hwaiting, markNodeAwaitingInput, if_neg (not_not.mpr hwaiting)]
      rfl
    · rw [if_neg hwaiting, markNodeAwaitingInput, if_pos hwaiting]
      rfl
  | pending | starting | running | cancelling =>
    simp only [projection, Projection.none, AgentRunReconciliationResult.see,
      AgentRunStatus.isFailure, AgentRunStatus.isUnderWay, AgentRunStatus.asks, Bool.or_false,
      Bool.not_true, Bool.and_false, reduceCtorEq, decide_false]
    rfl
  | cancelled | failed | crashed | auditFailed =>
    simp only [projection, AgentRunReconciliationResult.see, AgentRunStatus.isFailure,
      AgentRunStatus.isUnderWay, AgentRunStatus.asks, Bool.or_false, Bool.or_true, Bool.not_false,
      Bool.and_true, reduceCtorEq, decide_false, decide_true]
    rfl

end Play

namespace Db
variable (db : Db) (runId : ℕ)

theorem skipTarget_frame (target : String) :
    db.skipTarget runId target = { db with
      nodeExecutions := (db.skipTarget runId target).nodeExecutions } := by
  rw [skipTarget]
  split
  · rfl
  · rfl

theorem skipTargets_frame (targets : List String) :
    targets.foldl (fun db target => db.skipTarget runId target) db = { db with
      nodeExecutions :=
        (targets.foldl (fun db target => db.skipTarget runId target) db).nodeExecutions } := by
  induction targets generalizing db with
  | nil => rfl
  | cons target rest ih =>
    rw [List.foldl_cons, ih, skipTarget_frame]

/-- An observation writes executions, and the run if it waits. -/
theorem project_frame (n : NodeExecutionRow) (p : Projection) :
    db.project runId n p = { db with
      nodeExecutions := (db.project runId n p).nodeExecutions
      runs := if p.waits then (db.updateRunStatus runId .awaitingHuman none none).runs
        else db.runs } := by
  rw [project, skipTargets_frame]
  cases p.update with
  | none =>
    cases p.waits with
    | true => rfl
    | false => rfl
  | some update =>
    cases p.waits with
    | true => rfl
    | false => rfl

theorem project_orchestration (n : NodeExecutionRow) (p : Projection) :
    (db.project runId n p).orchestration = db.orchestration := by
  rw [project_frame]

end Db

section Summary
variable {config : Config} {env : Surroundings} {runId : ℕ} {graph : WorkflowGraph}
  {view : ℕ → AgentRunState}

/-- The writes of all observations of a call. -/
def Db.projectAll (config : Config) (env : Surroundings) (runId : ℕ) (graph : WorkflowGraph)
    (view : ℕ → AgentRunState) (db : Db) (seen : List (NodeExecutionRow × ℕ)) : Db :=
  seen.foldl (fun db c => db.project runId c.1 (projection config env graph (view c.2) c.1)) db

/-- The outcome of all observations of a call. -/
def summary (config : Config) (env : Surroundings) (graph : WorkflowGraph)
    (view : ℕ → AgentRunState) (seen : List (NodeExecutionRow × ℕ)) :
    AgentRunReconciliationResult where
  completed := false
  failed := seen.any fun c => (view c.2).status.isFailure
  awaitingHuman := seen.any fun c =>
    (projection config env graph (view c.2) c.1).waits || (view c.2).status.asks
  cancelled := seen.any fun c => decide ((view c.2).status = .cancelled)

/-- What a call sees of the agent runs it asks for. -/
structure Views (graph : WorkflowGraph) (view : ℕ → AgentRunState) (db : Db)
    (seen : List (NodeExecutionRow × ℕ)) : Prop where
  stored : ∀ c ∈ seen, db.agentRun? c.2 = some (view c.2)
  routes : ∀ c ∈ seen, Routes graph c.1

theorem play_reconcileExecutions_from {db : Db} {seen : List (NodeExecutionRow × ℕ)}
    (h : Views graph view db seen) (outcome : AgentRunReconciliationResult) (settled : Bool) :
    (reconcileExecutions config runId graph outcome settled seen).play (Stmt.observe config env) db =
      some (.ok ((seen.foldl (fun o c => o.see (view c.2).status
          (projection config env graph (view c.2) c.1).waits) outcome).conclude
            (settled && seen.all fun c => !(view c.2).status.isUnderWay)),
        db.projectAll config env runId graph view seen) := by
  induction seen generalizing db outcome settled with
  | nil => simp [reconcileExecutions, Prog.play, AgentRunReconciliationResult.conclude,
      Db.projectAll, pure]
  | cons c rest ih =>
    rw [play_reconcileExecutions_cons (h.stored c List.mem_cons_self)
      (h.routes c List.mem_cons_self), ih]
    · simp [Db.projectAll, Bool.and_assoc]
    · refine ⟨fun d hd => ?_, fun d hd => h.routes d (List.mem_cons_of_mem c hd)⟩
      rw [Db.agentRun?, Db.project_orchestration]
      exact h.stored d (List.mem_cons_of_mem c hd)

theorem foldl_see (seen : List (NodeExecutionRow × ℕ)) (outcome : AgentRunReconciliationResult) :
    seen.foldl (fun o c => o.see (view c.2).status
        (projection config env graph (view c.2) c.1).waits) outcome =
      { outcome with
        failed := outcome.failed || (summary config env graph view seen).failed
        awaitingHuman := outcome.awaitingHuman || (summary config env graph view seen).awaitingHuman
        cancelled := outcome.cancelled || (summary config env graph view seen).cancelled } := by
  induction seen generalizing outcome with
  | nil => simp [summary]
  | cons c rest ih =>
    rw [List.foldl_cons, ih]
    simp [summary, AgentRunReconciliationResult.see, Bool.or_assoc]

/-- The boundary writes all observations and answers their summary. -/
theorem play_reconcileExecutions {db : Db} {seen : List (NodeExecutionRow × ℕ)}
    (h : Views graph view db seen) (settled : Bool) :
    (reconcileExecutions config runId graph ⟨false, false, false, false⟩ settled seen).play
        (Stmt.observe config env) db =
      some (.ok ((summary config env graph view seen).conclude
          (settled && seen.all fun c => !(view c.2).status.isUnderWay)),
        db.projectAll config env runId graph view seen) := by
  rw [play_reconcileExecutions_from h, foldl_see]
  simp [summary]

end Summary

end VibeKanban.Runtime
