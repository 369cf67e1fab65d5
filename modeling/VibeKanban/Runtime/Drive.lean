import VibeKanban.Runtime.Statements

/-! The drive loop of a run: creating triggered iterations, planning and dispatching nodes. -/
namespace VibeKanban.Runtime
open Lib Workflow Router

inductive RunStep where
  | «continue» | pause | stop
  deriving DecidableEq, Repr

/-- The outputs of a node's successes, in the order of their iterations. -/
def Db.succeededOutputs (db : Db) (runId : ℕ) (nodeId : String) : List String :=
  ((((db.effectiveExecutions runId).map (·.snapshot)).filter fun e =>
    e.nodeId == nodeId && decide (e.status = .succeeded)).insertionSort
      fun a b => a.iteration ≤ b.iteration).filterMap (·.outputText)

/-- Every row is there and none is pending, running, waiting or failed. -/
def allNodesTerminal (snapshot : RunSnapshot) : Bool :=
  !snapshot.nodes.isEmpty && snapshot.nodes.all fun node =>
    decide (node.status = .succeeded ∨ node.status = .cancelled ∨ node.status = .skipped)

/-- The first output of an End, or else the last output of all. -/
def Db.finalRunOutput (db : Db) (runId : ℕ) (graph : WorkflowGraph) : Option String :=
  let ends := graph.nodes.filter fun node => decide (node.kind = .end)
  let succeeded := ((db.effectiveExecutions runId).map (·.snapshot)).filter fun e =>
    decide (e.status = .succeeded)
  match ends.findSome? fun node => ((succeeded.filter fun e =>
      e.nodeId == node.id).insertionSort fun a b => a.iteration ≤ b.iteration).head?.bind
        (·.outputText) with
  | some output => some output
  | none => (succeeded.insertionSort fun a b => b.iteration < a.iteration ∨
      b.iteration = a.iteration ∧ b.nodeId ≤ a.nodeId).head?.bind (·.outputText)

def nodeContext (runId : ℕ) (graph : WorkflowGraph) (node : WorkflowNode) (runInputText : String) :
    Program NodeHandlerContext := do
  let outputs ← Prog.collect (fun edge : WorkflowEdge => Program.read fun db =>
    db.succeededOutputs runId edge.source) (incomingEdges graph node.id)
  return ⟨runInputText, outputs.flatten⟩

section Writes
variable (runId : ℕ) (nodeId : String) (iteration : ℤ)

def markNodeRunning : Program Unit :=
  Program.exec (.updateNodeExecution .markRunning runId nodeId iteration
    ⟨.running, none, none, none, by decide⟩)

def markNodeSucceeded (origin : NodeWrite) (outputText : Option String) : Program Unit :=
  Program.exec (.updateNodeExecution origin runId nodeId iteration
    ⟨.succeeded, outputText, none, none, by decide⟩)

def markNodeFailed (origin : NodeWrite) (errorText : String) : Program Unit :=
  Program.exec (.updateNodeExecution origin runId nodeId iteration
    ⟨.failed, none, none, some errorText, by decide⟩)

def markNodeWaiting (origin : NodeWrite) (status : NodeExecutionStatus)
    (outputText : Option String) (arenaGroupId : Option ℕ)
    (started : status ≠ .pending := by decide) : Program Unit :=
  Program.exec (.updateNodeExecution origin runId nodeId iteration
    ⟨status, outputText, arenaGroupId, none, started⟩)

def updateRunStatus (status : WorkflowRunStatus) (outputText errorText : Option String) :
    Program Unit := Program.exec (.updateRunStatus runId status outputText errorText)

/-- Each target loses its first pending row, if it still has one when it is written. -/
def markSkippedTargets : List String → Program Unit :=
  Prog.forEach fun target => do
    match ← Program.read fun db => db.pendingTarget runId target with
    | none => return ()
    | some n => Program.exec (.skipPendingExecution n.id)

def markPendingNodesSkipped : Program Unit := do
  let rows ← Program.read fun db => db.pendingExecutions runId
  Prog.forEach (fun n : NodeExecutionRow => Program.exec (.skipPendingExecution n.id)) rows

/-- A failed dispatch fails its node and the run. -/
def failDispatch (origin : NodeWrite) (message : String) : Program RunStep := do
  markNodeFailed runId nodeId iteration origin message
  markPendingNodesSkipped runId
  updateRunStatus runId .failed none (some message)
  return .stop

def canonicalNodeIdentity : Program Unit :=
  Program.require (Program.exec (.port (.canonicalNodeIdentity runId nodeId iteration)))

end Writes

section Router
variable (config : Config)

def routerStartedOutputPayload (agentRunId : ℕ) (before : Option WorktreeSnapshot) : String :=
  config.router.json.toString (.obj [("type", .str "condition_router_run"),
    ("source", .str "router"), ("status", .str "running"), ("schema_version", .num 1),
    ("agent_run_id", .num agentRunId), ("pre_worktree_summary", .optStr (before.map (·.summary))),
    ("pre_worktree_fingerprint", .optStr (before.map (·.fingerprint)))])

def routerPreWorktreeFingerprint (outputText : Option String) : Option String :=
  ((outputText.bind config.router.json.fromStr).bind (·.get? "pre_worktree_fingerprint")).bind
    Json.asStr?

/-- Whether the worktree changed while the router was running. -/
def routerMutationWarning (runId : ℕ) (startedOutputText : Option String) :
    Program (Option String) := do
  match routerPreWorktreeFingerprint config startedOutputText with
  | none => return none
  | some before =>
    match ← Program.require (Program.exec (.port (.worktreeSnapshot runId))) with
    | none => return none
    | some after =>
      if before = after.fingerprint then return none
      else return some "Worktree status changed while the Condition router was running"

/-- Evaluate the router's output: route, or wait for a decision. Answers whether it waits. -/
def completeConditionRouter (runId : ℕ) (graph : WorkflowGraph) (nodeId : String) (iteration : ℤ)
    (startedOutputText : Option String) (rawOutput : String) : Program Bool := do
  match graph.nodes.find? fun node => node.id == nodeId with
  | none => .fail s!"Workflow node `{nodeId}` not found"
  | some node =>
    if node.kind ≠ .condition then .fail s!"Workflow node `{nodeId}` is not a condition"
    else do
      let mutationWarning ← routerMutationWarning config runId startedOutputText
      let completion := evaluateRouterOutput config.router rawOutput graph node mutationWarning
      if completion.shouldPause then do
        markNodeWaiting runId nodeId iteration .update .awaitingHuman
          (some completion.outputText) none
        updateRunStatus runId .awaitingHuman none none
      else do
        markNodeSucceeded runId nodeId iteration .update (some completion.outputText)
        markSkippedTargets runId completion.skippedTargetNodeIds
      return completion.shouldPause

end Router

section Execute
variable (config : Config) (runId : ℕ) (graph : WorkflowGraph) (node : WorkflowNode)
  (iteration : ℤ)

def executeAgent : Program RunStep := do
  if !(← Program.read fun db => (db.ownExecutions runId).any fun n =>
      n.nodeId == node.id && n.iteration == iteration) then
    .fail s!"Workflow node execution `{node.id}` iteration {iteration} was not found"
  else do
    canonicalNodeIdentity runId node.id iteration
    markNodeRunning runId node.id iteration
    match ← Program.exec (.port (.runAgent runId node.id iteration)) with
    | .ok (.completed _ outputText) => do
      markNodeSucceeded runId node.id iteration .update (some outputText)
      return .continue
    | .ok (.started _ outputText) => do
      markNodeWaiting runId node.id iteration .update .running outputText none
      return .pause
    | .error message => failDispatch runId node.id iteration .update message

def executeCondition : Program RunStep := do
  let before ← Program.require (Program.exec (.port (.worktreeSnapshot runId)))
  if conditionOutgoingTargetIds graph node = [] then
    .fail s!"Condition node `{node.id}` has no outgoing candidates"
  else do
    Program.require (Program.exec (.port (.routerSession runId)))
    canonicalNodeIdentity runId node.id iteration
    if graph.routerExecutorConfig.isNone then
      .fail "Workflow with Condition nodes requires router executor config"
    else do
      markNodeRunning runId node.id iteration
      match ← Program.exec (.port (.runAgent runId node.id iteration)) with
      | .ok (.completed agentRunId outputText) => do
        let started := routerStartedOutputPayload config agentRunId before
        markNodeWaiting runId node.id iteration .update .running (some started) none
        let pauses ← completeConditionRouter config runId graph node.id iteration (some started)
          outputText
        return if pauses then .pause else .continue
      | .ok (.started agentRunId _) => do
        markNodeWaiting runId node.id iteration .update .running
          (some (routerStartedOutputPayload config agentRunId before)) none
        return .pause
      | .error message => failDispatch runId node.id iteration .update message

def executeArena : Program RunStep := do
  markNodeRunning runId node.id iteration
  match ← Program.exec (.port (.createArena runId node.id iteration)) with
  | .ok arenaGroupId => do
    markNodeWaiting runId node.id iteration .update .awaitingArena none (some arenaGroupId)
    updateRunStatus runId .awaitingArena none none
    return .pause
  | .error message => failDispatch runId node.id iteration .update message

def executePure (context : NodeHandlerContext) : Program RunStep := do
  markNodeRunning runId node.id iteration
  match handlePureNode config.applyTransform node context with
  | .ok outcome =>
    match outcome.status with
    | .succeeded => do
      markNodeSucceeded runId node.id iteration .pureOutcome outcome.outputText
      markSkippedTargets runId outcome.skippedTargetNodeIds
      return .continue
    | .awaitingHuman => do
      markNodeWaiting runId node.id iteration .pureOutcome .awaitingHuman none none
      updateRunStatus runId .awaitingHuman none none
      return .pause
    | .awaitingArena => do
      markNodeWaiting runId node.id iteration .pureOutcome .awaitingArena none none
      updateRunStatus runId .awaitingArena none none
      return .pause
  | .error message => failDispatch runId node.id iteration .pureOutcome message

def executeReadyNode (runInputText : String) : Program RunStep := do
  let context ← nodeContext runId graph node runInputText
  match node.kind with
  | .agent => executeAgent runId node iteration
  | .condition => executeCondition config runId graph node iteration
  | .arena => executeArena runId node iteration
  | _ => executePure config runId node iteration context

end Execute

section Trigger
variable (config : Config)

/-- The iterations that upstream successes ask for and that have no row yet. -/
def missingIterations (graph : WorkflowGraph) (snapshot : RunSnapshot) (existing : String → ℕ)
    (latest : String → Option ℤ) (affected : Option (List String)) :
    List (WorkflowNode × ℤ) :=
  (graph.nodes.filter fun node => decide (node.kind ≠ .start) &&
    affected.all fun ids => ids.contains node.id).flatMap fun node =>
      (List.range (triggeredExecutionCount config.router.json.fromStr graph snapshot node.id -
        existing node.id)).map fun k =>
          (node, (match latest node.id with
            | some iteration => iteration + 1
            | none => 0) + k)

def insertNodeExecution (runId : ℕ) (node : WorkflowNode) (iteration : ℤ) : Program Unit := do
  Program.require (Program.exec (.insertNodeExecution runId node iteration))
  canonicalNodeIdentity runId node.id iteration

def ensureTriggeredNodeIterations (runId : ℕ) (graph : WorkflowGraph) : Program Unit := do
  let snapshot ← Program.read fun db => db.loadRunSnapshot runId
  let existing ← Program.read fun db => db.existingExecutionCount runId
  let latest ← Program.read fun db => db.maxExecutionIteration runId
  let affected ← Program.read fun db => db.submittedAffectedNodes runId
  Prog.forEach (fun missing : WorkflowNode × ℤ => insertNodeExecution runId missing.1 missing.2)
    (missingIterations config graph snapshot existing latest affected)

end Trigger

section Loop
variable (config : Config) (runId : ℕ) (graph : WorkflowGraph) (runInputText : String)

/-- The status of the run; a run that does not exist ends the program. -/
def fetchRunStatus : Program WorkflowRunStatus := do
  match ← Program.read fun db => db.runStatus? runId with
  | some status => return status
  | none => .fail "no rows returned"

/-- Dispatch the planned nodes in order. Answers whether the loop goes on. -/
def dispatchReadyNodes (shouldPause : Bool) : List ReadyNode → Program Bool
  | [] => return !shouldPause
  | ready :: rest => do
    if (← fetchRunStatus runId).isStopped then return false
    else match graph.nodes.find? fun node => node.id == ready.nodeId with
      | none => dispatchReadyNodes shouldPause rest
      | some node => do
        match ← executeReadyNode config runId graph node ready.iteration runInputText with
        | .continue => dispatchReadyNodes shouldPause rest
        | .pause => dispatchReadyNodes true rest
        | .stop => return false

/-- One pass of the loop. Answers whether the loop goes on. -/
def driveTurn : Program Bool := do
  if (← fetchRunStatus runId).isStopped then return false
  else do
    ensureTriggeredNodeIterations config runId graph
    let snapshot ← Program.read fun db => db.loadRunSnapshot runId
    if allNodesTerminal snapshot then do
      let outputText ← Program.read fun db => db.finalRunOutput runId graph
      updateRunStatus runId .succeeded outputText none
      return false
    else do
      let plan := planReadyNodes config.router.json.fromStr graph snapshot
      if plan.readyNodes.isEmpty then return false
      else dispatchReadyNodes config runId graph runInputText false plan.readyNodes

/-- The loop itself; a program that has used up its passes never goes on. -/
def driveWorkflowRun : ℕ → Program Unit
  | 0 => do
    let stuck ← Program.exec .never
    nomatch stuck
  | passes + 1 => do
    if ← driveTurn config runId graph runInputText then driveWorkflowRun passes
    else return ()

end Loop

end VibeKanban.Runtime
