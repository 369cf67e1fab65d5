import VibeKanban.Runtime.Absorption

/-! Dispatching: every agent run, Arena or pure outcome of an execution is preceded by the write
that marks its row running, in the same program. -/
namespace VibeKanban.Runtime
open Lib Workflow Router

/-- The run, node and iteration of an execution. -/
abbrev ExecutionKey := ℕ × String × ℤ

namespace Stmt

/-- The execution a statement marks as running. -/
def marks : Stmt → Option ExecutionKey
  | updateNodeExecution .markRunning runId nodeId iteration _ => some (runId, nodeId, iteration)
  | _ => none

/-- The execution a statement dispatches: an agent run is started, an Arena is created or the
outcome of a pure handler is written. -/
def dispatches : Stmt → Option ExecutionKey
  | port (.runAgent runId nodeId iteration) => some (runId, nodeId, iteration)
  | port (.createArena runId nodeId iteration) => some (runId, nodeId, iteration)
  | updateNodeExecution .pureOutcome runId nodeId iteration _ => some (runId, nodeId, iteration)
  | _ => none

end Stmt

/-- One token for a statement about the given execution. -/
def tokens (about : Stmt → Option ExecutionKey) (s : Stmt) (key : ExecutionKey) : ℕ :=
  if about s = some key then 1 else 0

/-- A program that marks every execution before it dispatches it. -/
abbrev Marked {α : Type} (p : Program α) : Prop :=
  Solvent (tokens Stmt.marks) (tokens Stmt.dispatches) p

section Rules
variable {α β : Type}

theorem marked_pure (a : α) : Marked (pure a : Program α) := solvent_ret a

theorem marked_fail (e : String) : Marked (.fail e : Program α) := solvent_fail e

theorem marked_bind {p : Program α} {f : α → Program β} (hp : Marked p)
    (hf : ∀ a, Marked (f a)) : Marked (p >>= f) := solvent_bind hp hf

theorem marked_ite {c : Prop} [Decidable c] {p q : Program α} (hp : Marked p)
    (hq : Marked q) : Marked (if c then p else q) := by
  split_ifs
  · exact hp
  · exact hq

theorem marked_exec {s : Stmt} (h : s.dispatches = none) : Marked (Program.exec s) :=
  solvent_free fun key => by simp [tokens, h]

theorem marked_read (f : Db → β) : Marked (Program.read f) :=
  solvent_free fun _ => rfl

theorem marked_require {p : Program (Except String α)} (hp : Marked p) :
    Marked (Program.require p) := solvent_bind hp fun a => solvent_ofExcept a

theorem marked_ofExcept (r : Except String α) : Marked (Prog.ofExcept r : Program α) :=
  solvent_ofExcept r

theorem marked_attempt {p : Program α} (hp : Marked p) : Marked p.attempt :=
  solvent_attempt hp

theorem marked_forEach {body : β → Program Unit} (h : ∀ b, Marked (body b))
    (l : List β) : Marked (Prog.forEach body l) := solvent_forEach h l

theorem marked_collect {body : β → Program α} (h : ∀ b, Marked (body b))
    (l : List β) : Marked (Prog.collect body l) := solvent_collect h l

/-- The mark of an execution, followed by its dispatch. -/
theorem marked_dispatch {runId : ℕ} {nodeId : String} {iteration : ℤ} {s : Stmt}
    {f : s.Ans → Program β} (hs : s.dispatches = some (runId, nodeId, iteration))
    (hf : ∀ a, Marked (f a)) :
    Marked (markNodeRunning runId nodeId iteration >>= fun _ => Program.exec s >>= f) :=
  solvent_pair (fun _ => rfl) (fun key => by simp [tokens, hs, Stmt.marks]) hf

end Rules

section Drive
variable (runId : ℕ) (nodeId : String) (iteration : ℤ)

theorem marked_markNodeSucceeded (outputText : Option String) :
    Marked (markNodeSucceeded runId nodeId iteration .update outputText) := marked_exec rfl

theorem marked_markNodeFailed (errorText : String) :
    Marked (markNodeFailed runId nodeId iteration .update errorText) := marked_exec rfl

theorem marked_markNodeWaiting (status : NodeExecutionStatus) (outputText : Option String)
    (arenaGroupId : Option ℕ) (started : status ≠ .pending) :
    Marked (markNodeWaiting runId nodeId iteration .update status outputText arenaGroupId
      started) := marked_exec rfl

theorem marked_updateRunStatus (status : WorkflowRunStatus)
    (outputText errorText : Option String) :
    Marked (updateRunStatus runId status outputText errorText) := marked_exec rfl

theorem marked_markSkippedTargets (targets : List String) :
    Marked (markSkippedTargets runId targets) := by
  refine marked_forEach (fun target => marked_bind (marked_read _) fun row => ?_) targets
  cases row with
  | none => exact marked_pure ()
  | some n => exact marked_exec rfl

theorem marked_markPendingNodesSkipped : Marked (markPendingNodesSkipped runId) :=
  marked_bind (marked_read _) fun rows => marked_forEach (fun _ => marked_exec rfl) rows

/-- The node of a failed dispatch has been marked with it. -/
theorem marked_failRest (message : String) : Marked (do
    markPendingNodesSkipped runId
    updateRunStatus runId .failed none (some message)
    return RunStep.stop) := by
  refine marked_bind (marked_markPendingNodesSkipped runId) fun _ => ?_
  exact marked_bind (marked_updateRunStatus runId _ _ _) fun _ => marked_pure _

theorem marked_failDispatch (message : String) :
    Marked (failDispatch runId nodeId iteration .update message) :=
  marked_bind (marked_markNodeFailed runId nodeId iteration message) fun _ =>
    marked_failRest runId message

theorem marked_canonicalNodeIdentity : Marked (canonicalNodeIdentity runId nodeId iteration) :=
  marked_require (marked_exec rfl)

variable (config : Config) (graph : WorkflowGraph)

theorem marked_routerMutationWarning (started : Option String) :
    Marked (routerMutationWarning config runId started) := by
  rw [routerMutationWarning]
  split
  · exact marked_pure _
  · refine marked_bind (marked_require (marked_exec rfl)) fun after => ?_
    cases after with
    | none => exact marked_pure _
    | some after => exact marked_ite (marked_pure _) (marked_pure _)

theorem marked_completeConditionRouter (started : Option String) (rawOutput : String) :
    Marked (completeConditionRouter config runId graph nodeId iteration started rawOutput) := by
  rw [completeConditionRouter]
  split
  · exact marked_fail _
  · refine marked_ite (marked_fail _) (marked_bind (marked_routerMutationWarning _ _ _) fun _ => ?_)
    refine marked_ite ?_ ?_
    · exact marked_bind (marked_markNodeWaiting _ _ _ _ _ _ _) fun _ =>
        marked_bind (marked_updateRunStatus _ _ _ _) fun _ => marked_pure _
    · exact marked_bind (marked_markNodeSucceeded _ _ _ _) fun _ =>
        marked_bind (marked_markSkippedTargets _ _) fun _ => marked_pure _

variable (node : WorkflowNode)

theorem marked_executeAgent : Marked (executeAgent runId node iteration) := by
  refine marked_bind (marked_read _) fun _ => marked_ite (marked_fail _) ?_
  refine marked_bind (marked_canonicalNodeIdentity _ _ _) fun _ => marked_dispatch rfl fun a => ?_
  match a with
  | .ok (.completed _ outputText) =>
    exact marked_bind (marked_markNodeSucceeded _ _ _ _) fun _ => marked_pure _
  | .ok (.started _ outputText) =>
    exact marked_bind (marked_markNodeWaiting _ _ _ _ _ _ _) fun _ => marked_pure _
  | .error message => exact marked_failDispatch _ _ _ _

theorem marked_executeCondition : Marked (executeCondition config runId graph node iteration) := by
  refine marked_bind (marked_require (marked_exec rfl)) fun _ => marked_ite (marked_fail _) ?_
  refine marked_bind (marked_require (marked_exec rfl)) fun _ => ?_
  refine marked_bind (marked_canonicalNodeIdentity _ _ _) fun _ => marked_ite (marked_fail _) ?_
  refine marked_dispatch rfl fun a => ?_
  match a with
  | .ok (.completed _ outputText) =>
    refine marked_bind (marked_markNodeWaiting _ _ _ _ _ _ _) fun _ => ?_
    exact marked_bind (marked_completeConditionRouter _ _ _ _ _ _ _) fun _ => marked_pure _
  | .ok (.started _ _) =>
    exact marked_bind (marked_markNodeWaiting _ _ _ _ _ _ _) fun _ => marked_pure _
  | .error message => exact marked_failDispatch _ _ _ _

theorem marked_executeArena : Marked (executeArena runId node iteration) := by
  refine marked_dispatch rfl fun a => ?_
  match a with
  | .ok arenaGroupId =>
    exact marked_bind (marked_markNodeWaiting _ _ _ _ _ _ _) fun _ =>
      marked_bind (marked_updateRunStatus _ _ _ _) fun _ => marked_pure _
  | .error message => exact marked_failDispatch _ _ _ _

/-- A pure handler runs between the mark and the one write of its outcome. -/
theorem marked_executePure (context : NodeHandlerContext) :
    Marked (executePure config runId node iteration context) := by
  rw [executePure]
  cases handlePureNode config.applyTransform node context with
  | error message => exact marked_dispatch rfl fun _ => marked_failRest _ _
  | ok outcome =>
    obtain ⟨status, outputText, skipped⟩ := outcome
    cases status with
    | succeeded =>
      refine marked_dispatch rfl fun _ => ?_
      exact marked_bind (marked_markSkippedTargets _ _) fun _ => marked_pure _
    | awaitingHuman =>
      refine marked_dispatch rfl fun _ => ?_
      exact marked_bind (marked_updateRunStatus _ _ _ _) fun _ => marked_pure _
    | awaitingArena =>
      refine marked_dispatch rfl fun _ => ?_
      exact marked_bind (marked_updateRunStatus _ _ _ _) fun _ => marked_pure _

theorem marked_nodeContext (text : String) : Marked (nodeContext runId graph node text) :=
  marked_bind (marked_collect (fun _ => marked_read _) _) fun _ => marked_pure _

theorem marked_executeReadyNode (text : String) :
    Marked (executeReadyNode config runId graph node iteration text) := by
  refine marked_bind (marked_nodeContext _ _ _ _) fun context => ?_
  split
  · exact marked_executeAgent _ _ _
  · exact marked_executeCondition _ _ _ _ _
  · exact marked_executeArena _ _ _
  · exact marked_executePure _ _ _ _ _

theorem marked_ensureTriggeredNodeIterations :
    Marked (ensureTriggeredNodeIterations config runId graph) := by
  refine marked_bind (marked_read _) fun _ => marked_bind (marked_read _) fun _ => ?_
  refine marked_bind (marked_read _) fun _ => marked_bind (marked_read _) fun _ => ?_
  refine marked_forEach (fun missing => ?_) _
  exact marked_bind (marked_require (marked_exec rfl)) fun _ => marked_canonicalNodeIdentity _ _ _

theorem marked_fetchRunStatus : Marked (fetchRunStatus runId) := by
  refine marked_bind (marked_read _) fun status => ?_
  cases status with
  | some status => exact marked_pure _
  | none => exact marked_fail _

theorem marked_dispatchReadyNodes (text : String) (shouldPause : Bool) (ready : List ReadyNode) :
    Marked (dispatchReadyNodes config runId graph text shouldPause ready) := by
  induction ready generalizing shouldPause with
  | nil => exact marked_pure _
  | cons first rest ih =>
    rw [dispatchReadyNodes]
    refine marked_bind (marked_fetchRunStatus _) fun _ => marked_ite (marked_pure _) ?_
    split
    · exact ih _
    · refine marked_bind (marked_executeReadyNode _ _ _ _ _ _) fun step => ?_
      cases step with
      | «continue» => exact ih _
      | pause => exact ih _
      | stop => exact marked_pure _

theorem marked_driveTurn (text : String) : Marked (driveTurn config runId graph text) := by
  refine marked_bind (marked_fetchRunStatus _) fun _ => marked_ite (marked_pure _) ?_
  refine marked_bind (marked_ensureTriggeredNodeIterations _ _ _) fun _ => ?_
  refine marked_bind (marked_read _) fun snapshot => marked_ite ?_ ?_
  · exact marked_bind (marked_read _) fun _ =>
      marked_bind (marked_updateRunStatus _ _ _ _) fun _ => marked_pure _
  · exact marked_ite (marked_pure _) (marked_dispatchReadyNodes _ _ _ _ _ _)

theorem marked_driveWorkflowRun (text : String) (passes : ℕ) :
    Marked (driveWorkflowRun config runId graph text passes) := by
  induction passes with
  | zero => exact marked_bind (marked_exec rfl) fun stuck => nomatch stuck
  | succ passes ih =>
    exact marked_bind (marked_driveTurn _ _ _ _) fun _ => marked_ite ih (marked_pure _)

end Drive

section Operations
variable (config : Config) (passes runId : ℕ) (nodeId : String) (interactionId : Option ℕ)

theorem marked_loadRuntimeRun : Marked (loadRuntimeRun runId) := by
  refine marked_bind (marked_read _) fun run => ?_
  cases run with
  | some run => exact marked_pure _
  | none => exact marked_fail _

theorem marked_interactionNode (graph : WorkflowGraph) (kind : WorkflowNodeKind) (label : String) :
    Marked (interactionNode nodeId graph kind label) := by
  rw [interactionNode]
  split
  · exact marked_fail _
  · exact marked_ite (marked_fail _) (marked_pure _)

theorem marked_claimInteraction (awaited : Awaited) (response : InteractionResponse) :
    Marked (claimInteraction runId nodeId interactionId awaited response) := by
  refine marked_bind (marked_exec rfl) fun claimed => ?_
  match claimed with
  | some (_, iteration) => exact marked_pure _
  | none => exact marked_fail _

/-- What follows an answer that lets the run go on. -/
theorem marked_resume (run : RunRow) (iteration : ℤ) (outputText : Option String) : Marked (do
    markNodeSucceeded runId nodeId iteration .update outputText
    updateRunStatus runId .running none none
    driveWorkflowRun config runId run.graph run.inputText passes) := by
  refine marked_bind (marked_markNodeSucceeded _ _ _ _) fun _ => ?_
  exact marked_bind (marked_updateRunStatus _ _ _ _) fun _ => marked_driveWorkflowRun _ _ _ _ _

theorem marked_approveHumanNode :
    Marked (approveHumanNode config passes runId nodeId interactionId) := by
  refine marked_bind (marked_loadRuntimeRun _) fun run => ?_
  refine marked_bind (marked_interactionNode _ _ _ _) fun node => ?_
  refine marked_bind (marked_nodeContext _ _ _ _) fun context => ?_
  refine marked_bind (marked_claimInteraction _ _ _ _ _) fun iteration => ?_
  exact marked_resume config passes runId nodeId run iteration _

theorem marked_selectConditionBranch (selected : List String) (reason : Option String) :
    Marked (selectConditionBranch config passes runId nodeId interactionId selected reason) := by
  refine marked_bind (marked_loadRuntimeRun _) fun run => ?_
  refine marked_bind (marked_interactionNode _ _ _ _) fun node => ?_
  refine marked_bind (marked_read _) fun awaited => ?_
  cases awaited with
  | none => exact marked_fail _
  | some awaited =>
    refine marked_bind (marked_read _) fun existing => ?_
    refine marked_bind (marked_ofExcept _) fun route => ?_
    refine marked_bind (marked_claimInteraction _ _ _ _ _) fun claimed => ?_
    exact marked_ite (marked_fail _) (marked_resume config passes runId nodeId run _ _)

theorem marked_selectArenaWinner (candidateId : ℕ) :
    Marked (selectArenaWinner config passes runId nodeId interactionId candidateId) := by
  refine marked_bind (marked_loadRuntimeRun _) fun run => ?_
  refine marked_bind (marked_interactionNode _ _ _ _) fun node => ?_
  refine marked_bind (marked_read _) fun arena => ?_
  cases arena with
  | none => exact marked_fail _
  | some arena =>
    refine marked_bind (marked_claimInteraction _ _ _ _ _) fun iteration => ?_
    refine marked_bind (marked_exec rfl) fun applied => ?_
    match applied with
    | .ok outputText => exact marked_resume config passes runId nodeId run _ _
    | .error message => exact marked_bind (marked_failDispatch _ _ _ _) fun _ => marked_pure _

theorem marked_rejectHumanNode : Marked (rejectHumanNode runId nodeId interactionId) := by
  refine marked_bind (marked_loadRuntimeRun _) fun run => marked_ite (marked_fail _) ?_
  refine marked_bind (marked_claimInteraction _ _ _ _ _) fun iteration => ?_
  exact marked_bind (marked_failDispatch _ _ _ _) fun _ => marked_pure _

theorem marked_reconcileCancelling : Marked (reconcileCancelling runId) := by
  refine marked_bind (marked_exec rfl) fun _ => marked_bind (marked_read _) fun _ => ?_
  refine marked_ite (marked_pure _) ?_
  exact marked_bind (marked_exec rfl) fun _ => marked_updateRunStatus _ _ _ _

theorem marked_cancelWorkflowRun : Marked (cancelWorkflowRun runId) := by
  refine marked_bind (marked_read _) fun _ => marked_ite (marked_fail _) ?_
  refine marked_bind (marked_exec rfl) fun queued => marked_ite (marked_exec rfl) ?_
  refine marked_bind (marked_fetchRunStatus _) fun _ => marked_bind (marked_read _) fun _ => ?_
  refine marked_ite (marked_pure _) (marked_bind (marked_updateRunStatus _ _ _ _) fun _ => ?_)
  have hnodes : Marked (projectNodesCancelling runId) :=
    marked_bind (marked_read _) fun _ => marked_forEach (fun _ => marked_exec rfl) _
  have harenas : ∀ {β : Type} (f : Unit → Program β), (∀ a, Marked (f a)) → Marked (do
      let arenas ← Program.read fun db => db.arenaRuns runId
      let a ← Prog.forEach (fun arena : ℕ =>
        Program.require (Program.exec (.port (.cancelOrchestration arena)))) arenas
      f a) := fun f hf => marked_bind (marked_read _) fun _ =>
        marked_bind (marked_forEach (fun _ => marked_require (marked_exec rfl)) _) hf
  refine marked_bind hnodes fun _ => marked_bind (marked_read _) fun orchestration => ?_
  cases orchestration with
  | some orchestration =>
    exact marked_bind (marked_require (marked_exec rfl)) fun _ =>
      harenas _ fun _ => marked_reconcileCancelling _
  | none =>
    exact marked_bind (marked_require (marked_exec rfl)) fun _ =>
      harenas _ fun _ => marked_reconcileCancelling _

theorem marked_markNodeAwaitingInput (n : NodeExecutionRow) :
    Marked (markNodeAwaitingInput runId n) :=
  marked_ite (marked_markNodeWaiting _ _ _ _ _ _ _) (marked_pure _)

theorem marked_reconcileExecutions (graph : WorkflowGraph) (outcome : AgentRunReconciliationResult)
    (settled : Bool) (rows : List (NodeExecutionRow × ℕ)) :
    Marked (reconcileExecutions config runId graph outcome settled rows) := by
  induction rows generalizing outcome settled with
  | nil => exact marked_pure _
  | cons row rest ih =>
    rw [reconcileExecutions]
    refine marked_bind (marked_require (marked_exec rfl)) fun state => ?_
    cases state with
    | none => exact ih _ _
    | some state =>
      dsimp only
      split
      · refine marked_ite ?_ ?_
        · exact marked_bind (marked_completeConditionRouter _ _ _ _ _ _ _) fun _ => ih _ _
        · exact marked_bind (marked_markNodeSucceeded _ _ _ _) fun _ => ih _ _
      · exact marked_bind (marked_markNodeAwaitingInput _ _) fun _ => ih _ _
      · exact marked_bind (marked_markNodeAwaitingInput _ _) fun _ => ih _ _
      · exact marked_bind (marked_exec rfl) fun _ => ih _ _
      · exact marked_bind (marked_markNodeFailed _ _ _ _) fun _ => ih _ _
      · exact marked_bind (marked_markNodeFailed _ _ _ _) fun _ => ih _ _
      · exact marked_bind (marked_markNodeFailed _ _ _ _) fun _ => ih _ _
      all_goals exact ih _ _

theorem marked_reconcileBoundary : Marked (reconcileBoundary config runId) := by
  refine marked_bind (marked_read _) fun orchestration => ?_
  cases orchestration with
  | none => exact marked_pure _
  | some orchestration =>
    refine marked_bind (marked_require (marked_exec rfl)) fun _ => ?_
    refine marked_bind (marked_read _) fun _ => ?_
    refine marked_bind (marked_forEach (fun _ => marked_require (marked_exec rfl)) _) fun _ => ?_
    refine marked_bind (marked_loadRuntimeRun _) fun _ => marked_bind (marked_read _) fun _ => ?_
    exact marked_reconcileExecutions _ _ _ _ _ _

theorem marked_reconcileWorkflowRun : Marked (reconcileWorkflowRun config passes runId) := by
  refine marked_bind (marked_loadRuntimeRun _) fun _ => marked_bind (marked_read _) fun _ => ?_
  refine marked_ite (marked_pure _) (marked_bind (marked_reconcileBoundary _ _) fun outcome => ?_)
  refine marked_ite ?_ (marked_ite (marked_updateRunStatus _ _ _ _)
    (marked_ite (marked_reconcileCancelling _) (marked_ite ?_ (marked_pure _))))
  · exact marked_bind (marked_markPendingNodesSkipped _) fun _ => marked_updateRunStatus _ _ _ _
  · exact marked_bind (marked_updateRunStatus _ _ _ _) fun _ => marked_driveWorkflowRun _ _ _ _ _

theorem marked_failAcceptedWorkflowRun (error : String) :
    Marked (failAcceptedWorkflowRun runId error) :=
  marked_bind (marked_markPendingNodesSkipped _) fun _ => marked_updateRunStatus _ _ _ _

theorem marked_beginOrchestration : Marked (beginOrchestration runId) :=
  marked_bind (marked_require (marked_exec rfl)) fun _ =>
    marked_bind (marked_exec rfl) fun _ => marked_require (marked_exec rfl)

theorem marked_startAcceptedWorkflowRun :
    Marked (startAcceptedWorkflowRun config passes runId) := by
  refine marked_bind (marked_exec rfl) fun _ => marked_ite (marked_pure _) ?_
  refine marked_bind (marked_loadRuntimeRun _) fun _ => ?_
  refine marked_bind (marked_beginOrchestration _) fun _ => ?_
  exact marked_bind (marked_exec rfl) fun _ => marked_driveWorkflowRun _ _ _ _ _

theorem marked_startOne : Marked (startOne config passes runId) := by
  refine marked_bind (marked_attempt (marked_startAcceptedWorkflowRun _ _ _)) fun result => ?_
  cases result with
  | ok _ => exact marked_pure _
  | error error => exact marked_failAcceptedWorkflowRun _ _

theorem marked_recoverAcceptedWorkflowStart :
    Marked (recoverAcceptedWorkflowStart config passes runId) := by
  refine marked_bind (marked_require (marked_exec rfl)) fun _ => ?_
  refine marked_bind (marked_exec rfl) fun interrupted => ?_
  refine marked_ite (marked_failAcceptedWorkflowRun _ _) (marked_bind (marked_read _) fun _ => ?_)
  refine marked_ite ?_ (marked_pure _)
  exact marked_bind (marked_loadRuntimeRun _) fun _ => marked_driveWorkflowRun _ _ _ _ _

theorem marked_recoverOne : Marked (recoverOne config passes runId) := by
  refine marked_bind (marked_exec rfl) fun _ => marked_bind (marked_read _) fun _ => ?_
  refine marked_ite ?_ (marked_bind (marked_exec rfl) fun _ => marked_startOne _ _ _)
  refine marked_bind (marked_exec rfl) fun _ => ?_
  exact marked_bind (marked_recoverAcceptedWorkflowStart _ _ _) fun _ => marked_exec rfl

theorem marked_startingTask (recover : Bool) :
    Marked (startingTask config passes runId recover) := by
  refine marked_bind (marked_attempt (marked_ite ?_ ?_)) fun _ => marked_exec rfl
  · exact marked_recoverOne _ _ _
  · exact marked_startOne _ _ _

theorem marked_triggerWorkflowRun (attemptId : Option ℕ) (projectId : ℕ) (graph : WorkflowGraph)
    (inputText : String) :
    Marked (triggerWorkflowRun config passes runId attemptId projectId graph inputText) := by
  refine marked_bind (marked_ofExcept _) fun _ => ?_
  refine marked_bind (marked_require (marked_exec rfl)) fun _ => ?_
  exact marked_bind (marked_beginOrchestration _) fun _ => marked_driveWorkflowRun _ _ _ _ _

theorem marked_acceptWorkflowRun (attemptId : Option ℕ) (projectId : ℕ) (graph : WorkflowGraph)
    (inputText : String) :
    Marked (acceptWorkflowRun runId attemptId projectId graph inputText) := by
  refine marked_bind (marked_read _) fun _ => marked_ite (marked_pure _) ?_
  refine marked_bind (marked_ofExcept _) fun _ => ?_
  exact marked_bind (marked_require (marked_exec rfl)) fun _ => marked_exec rfl

theorem marked_deliverStopIntents : Marked deliverStopIntents := by
  refine marked_bind (marked_read _) fun intents => marked_forEach (fun intent => ?_) intents
  refine marked_bind (marked_read _) fun _ => marked_ite (marked_pure _) ?_
  refine marked_bind (marked_attempt (marked_cancelWorkflowRun _)) fun result => ?_
  cases result with
  | error _ => exact marked_pure _
  | ok _ =>
    refine marked_bind (marked_exec rfl) fun _ => marked_bind (marked_exec rfl) fun _ => ?_
    exact marked_exec rfl

theorem marked_resolveWaitingSubmissions : Marked resolveWaitingSubmissions :=
  marked_bind (marked_read _) fun _ => marked_forEach
    (fun _ => marked_bind (marked_exec rfl) fun _ => marked_pure _) _

theorem marked_claimAll (claims : ℕ) : Marked (claimAll claims) := by
  induction claims with
  | zero => exact marked_bind (marked_exec rfl) fun stuck => nomatch stuck
  | succ claims ih =>
    refine marked_bind (marked_exec rfl) fun claimed => ?_
    match claimed with
    | none => exact marked_pure _
    | some id => exact marked_bind (marked_exec rfl) fun _ => ih

theorem marked_reconcileSlot : Marked (reconcileSlot config passes runId) := by
  refine marked_bind (marked_read _) fun _ => marked_ite (marked_pure _) ?_
  refine marked_bind (marked_attempt (marked_reconcileBoundary _ _)) fun result => ?_
  cases result with
  | error _ => exact marked_pure _
  | ok _ =>
    refine marked_bind (marked_attempt ?_) fun _ => marked_pure _
    refine marked_bind (marked_reconcileWorkflowRun _ _ _) fun _ => ?_
    exact marked_bind (marked_exec rfl) fun _ => marked_bind (marked_exec rfl) fun _ => marked_pure _

theorem marked_tick : Marked (tick config passes) := by
  refine marked_bind marked_deliverStopIntents fun _ => marked_bind (marked_read _) fun _ => ?_
  refine marked_bind (marked_forEach (fun id => marked_reconcileSlot _ _ id) _) fun _ => ?_
  exact marked_bind marked_resolveWaitingSubmissions fun _ => marked_claimAll _

end Operations

/-- Every operation marks an execution before it dispatches it. -/
theorem Operation.marked {config : Config} {p : Program Unit} (h : Operation config p) :
    Marked p := by
  cases h with
  | drive => exact marked_driveWorkflowRun _ _ _ _ _
  | approve => exact marked_approveHumanNode _ _ _ _ _
  | reject => exact marked_rejectHumanNode _ _ _
  | branch => exact marked_selectConditionBranch _ _ _ _ _ _ _
  | winner => exact marked_selectArenaWinner _ _ _ _ _ _
  | cancel => exact marked_cancelWorkflowRun _
  | reconcile => exact marked_reconcileWorkflowRun _ _ _
  | reconcileCancelling => exact marked_reconcileCancelling _
  | recoverStale =>
    exact marked_bind (marked_read _) fun _ => marked_forEach
      (fun _ => marked_bind (marked_reconcileBoundary _ _) fun _ => marked_pure _) _
  | startAccepted => exact marked_startAcceptedWorkflowRun _ _ _
  | startingTask => exact marked_startingTask _ _ _ _
  | trigger => exact marked_triggerWorkflowRun _ _ _ _ _ _ _
  | accept => exact marked_acceptWorkflowRun _ _ _ _ _
  | submit => exact marked_bind (marked_require (marked_exec rfl)) fun _ => marked_pure _
  | stop =>
    exact marked_bind (marked_require (marked_exec rfl)) fun _ => marked_deliverStopIntents
  | deliver => exact marked_deliverStopIntents
  | resolve => exact marked_resolveWaitingSubmissions
  | recoverStarting =>
    exact marked_bind (marked_read _) fun _ => marked_forEach
      (fun _ => marked_bind (marked_exec rfl) fun _ => marked_pure _) _
  | tick => exact marked_tick _ _

/-- The executions that the statements of a trace are about, newest first. -/
def traceKeys (about : Stmt → Option ExecutionKey) (tr : List (Sigma Stmt.Ans)) :
    List ExecutionKey := tr.filterMap fun e => about e.1

theorem count_traceKeys (about : Stmt → Option ExecutionKey) (tr : List (Sigma Stmt.Ans))
    (key : ExecutionKey) : (traceKeys about tr).count key = traceTotal (tokens about) tr key := by
  induction tr with
  | nil => rfl
  | cons e rest ih =>
    rw [traceTotal, List.map_cons, List.sum_cons, ← traceTotal, ← ih, traceKeys, tokens,
      List.filterMap_cons, traceKeys]
    cases about e.1 with
    | none => simp
    | some k => simp [List.count_cons, Nat.add_comm]

/-- An execution is marked running only while its row is pending. -/
def marksPending : Stmt → Db → Bool
  | .updateNodeExecution .markRunning runId nodeId iteration _, db =>
    (db.ownExecutions runId).any fun n => n.nodeId == nodeId && n.iteration == iteration &&
      decide (n.status = .pending)
  | _, _ => true

def NodeExecutionRow.key (n : NodeExecutionRow) : ExecutionKey := (n.runId, n.nodeId, n.iteration)

/-- The executions that were marked have rows that are no longer pending. -/
structure MarkInv (tr : List (Sigma Stmt.Ans)) (db : Db) : Prop where
  keyed : db.Keyed
  once : (traceKeys Stmt.marks tr).Nodup
  started : ∀ key ∈ traceKeys Stmt.marks tr, ∃ n ∈ db.nodeExecutions,
    n.key = key ∧ n.status ≠ .pending

theorem MarkInv.sound {tr : List (Sigma Stmt.Ans)} {db db' : Db} (h : MarkInv tr db)
    (hsound : db.Sound db') : MarkInv tr db' := by
  obtain ⟨hk, _, hnodes⟩ := hsound h.keyed
  refine ⟨hk, h.once, fun key hkey => ?_⟩
  obtain ⟨n, hn, rfl, hstarted⟩ := h.started key hkey
  obtain ⟨i, hi⟩ := List.mem_iff_getElem?.mp hn
  obtain ⟨n', hi', habs⟩ := hnodes i n hi
  exact ⟨n', List.mem_of_getElem? hi', habs.key.symm, habs.started hstarted⟩

/-- Marking a pending row marks it for the first time. -/
theorem MarkInv.mark {fromStr : String → Option Json} {tr : List (Sigma Stmt.Ans)} {db db' : Db}
    {runId : ℕ} {nodeId : String} {iteration : ℤ} {update : NodeExecutionUpdate} {a : Unit}
    (h : MarkInv tr db) (hs : (Stmt.updateNodeExecution .markRunning runId nodeId iteration
      update).Exec fromStr db a db')
    (hguard : marksPending (.updateNodeExecution .markRunning runId nodeId iteration update) db =
      true) :
    MarkInv (⟨.updateNodeExecution .markRunning runId nodeId iteration update, a⟩ :: tr) db' := by
  have hafter := h.sound hs.sound
  obtain ⟨n, hn, hpending⟩ := List.any_eq_true.mp hguard
  simp only [Db.ownExecutions, List.mem_filter, beq_iff_eq] at hn
  simp only [Bool.and_eq_true, beq_iff_eq, decide_eq_true_eq] at hpending
  have hkey : n.key = (runId, nodeId, iteration) := by
    rw [NodeExecutionRow.key, hn.2, hpending.1.1, hpending.1.2]
  refine ⟨hafter.keyed, List.nodup_cons.mpr ⟨fun hmarked => ?_, h.once⟩, fun key hmem => ?_⟩
  · obtain ⟨m, hm, hmkey, hstarted⟩ := h.started _ hmarked
    obtain rfl := List.inj_on_of_nodup_map h.keyed.keys hm hn.1 (hmkey.trans hkey.symm)
    exact hstarted hpending.2
  · rcases List.mem_cons.mp hmem with rfl | hmem
    · rw [← run_snd hs]
      refine ⟨_, mem_updateWhere.mpr (Or.inl ⟨n, hn.1, ?_, rfl⟩), hkey, update.started⟩
      simp [hn.2, hpending.1.1, hpending.1.2, hpending.2, nodeTerminal]
    · exact hafter.started key hmem

theorem MarkInv.step {fromStr : String → Option Json} {tr : List (Sigma Stmt.Ans)} {db db' : Db}
    {s : Stmt} {a : s.Ans} (h : MarkInv tr db) (hguard : marksPending s db = true)
    (hs : s.Exec fromStr db a db') : MarkInv (⟨s, a⟩ :: tr) db' := by
  have hafter := h.sound hs.sound
  cases s with
  | updateNodeExecution origin runId nodeId iteration update =>
    cases origin with
    | markRunning => exact h.mark hs hguard
    | pureOutcome => exact ⟨hafter.keyed, hafter.once, hafter.started⟩
    | update => exact ⟨hafter.keyed, hafter.once, hafter.started⟩
  | _ => exact ⟨hafter.keyed, hafter.once, hafter.started⟩

/-- In every interleaving in which executions are marked running only while their rows are
pending, no execution is dispatched twice. -/
theorem dispatched_at_most_once {config : Config} {db : Db} {w : System} (hkeys : db.Keyed)
    (h : Interleaves config marksPending (.start db) w) :
    (traceKeys Stmt.dispatches w.trace).Nodup := by
  have hmarks : MarkInv w.trace w.state := by
    refine Steps.inv (fun _ _ _ _ _ hI hguard hs => hI.step hguard hs) ?_ h ⟨hkeys, ?_, ?_⟩
    · exact fun _ _ _ hI hmove => hI.sound (Db.sound_orchestration hmove)
    · exact List.nodup_nil
    · exact fun key hkey => absurd hkey (List.not_mem_nil)
  rw [List.nodup_iff_count_le_one]
  intro key
  calc (traceKeys Stmt.dispatches w.trace).count key
      = traceTotal (tokens Stmt.dispatches) w.trace key := count_traceKeys _ _ _
    _ ≤ traceTotal (tokens Stmt.marks) w.trace key :=
      Steps.cost_le_gain (fun _ hp => hp.marked) h key
    _ = (traceKeys Stmt.marks w.trace).count key := (count_traceKeys _ _ _).symm
    _ ≤ 1 := List.nodup_iff_count_le_one.mp hmarks.once key

section Fixture

/-- A workflow with one human gate. -/
def gateGraph : WorkflowGraph :=
  ⟨2, [⟨"start", .start, none, none⟩, ⟨"gate", .humanGate, none, none⟩, ⟨"end", .end, none, none⟩],
    [⟨"e", "start", "gate"⟩, ⟨"f", "gate", "end"⟩], none⟩

/-- The gate is the next node of a running workflow. -/
def gateDb : Db := { Db.empty with
  runs := [⟨1, none, 0, gateGraph, "input", .running, none, none, none⟩]
  nodeExecutions := [⟨0, 1, "start", .start, 0, .succeeded, some "input", none, none⟩,
    ⟨1, 1, "gate", .humanGate, 0, .pending, none, none, none⟩,
    ⟨2, 1, "end", .end, 0, .pending, none, none, none⟩]
  nextId := 3 }

def gatePasses : List (Program Unit) :=
  [driveWorkflowRun Config.plain 1 gateGraph "input" 1,
    driveWorkflowRun Config.plain 1 gateGraph "input" 1]

theorem gatePasses_operation : ∀ p ∈ gatePasses, Operation Config.plain p := by
  intro p hp
  rcases List.mem_pair.mp hp with rfl | rfl
  · exact Operation.drive 1 1 gateGraph "input"
  · exact Operation.drive 1 1 gateGraph "input"

/-- One pass dispatches the gate while a second one is under way. -/
theorem dispatched_at_most_once_gate : ∃ w : System,
    Interleaves Config.plain marksPending (.start gateDb) w ∧
      traceKeys Stmt.dispatches w.trace = [(1, "gate", 0)] ∧
      (traceKeys Stmt.dispatches w.trace).Nodup := by
  have hkeys : gateDb.Keyed := ⟨⟨by decide, by decide, by decide⟩, by decide⟩
  have hstart := start_interleaves marksPending gateDb gatePasses_operation
  obtain ⟨w, hw, htrace⟩ : ∃ w : System, follow (Stmt.accept Config.plain marksPending)
      (List.replicate 10 0 ++ List.replicate 6 1) ⟨[], gateDb, gatePasses⟩ = some w ∧
      traceKeys Stmt.dispatches w.trace = [(1, "gate", 0)] := ⟨_, rfl, rfl⟩
  have hrun := hstart.trans (follow_interleaves hw)
  exact ⟨w, hrun, htrace, dispatched_at_most_once hkeys hrun⟩

/-- Two passes plan the gate from the same snapshot; both mark it and both write its outcome. -/
theorem gate_dispatched_twice : ∃ w : System,
    Interleaves Config.plain unguarded (.start gateDb) w ∧
      traceKeys Stmt.dispatches w.trace = [(1, "gate", 0), (1, "gate", 0)] := by
  have hstart := start_interleaves unguarded gateDb gatePasses_operation
  obtain ⟨w, hw, htrace⟩ : ∃ w : System, follow (Stmt.accept Config.plain unguarded)
      (List.replicate 8 0 ++ List.replicate 8 1 ++ [0, 0, 1, 1]) ⟨[], gateDb, gatePasses⟩ = some w ∧
      traceKeys Stmt.dispatches w.trace = [(1, "gate", 0), (1, "gate", 0)] := ⟨_, rfl, rfl⟩
  exact ⟨w, hstart.trans (follow_interleaves hw), htrace⟩

end Fixture

end VibeKanban.Runtime
