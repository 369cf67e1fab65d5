import VibeKanban.Runtime.Drive

/-! The operations on runs: answers to interactions, cancellation, reconciliation, recovery, the
dispatcher and the acceptance of requests. -/
namespace VibeKanban.Runtime
open Lib Workflow Router

section Interaction
variable (config : Config) (passes runId : ℕ) (nodeId : String) (interactionId : Option ℕ)

def loadRuntimeRun : Program RunRow := do
  match ← Program.read fun db => db.run? runId with
  | some run => return run
  | none => .fail "Workflow run not found"

/-- The node an interaction is about, which must be of the given kind. -/
def interactionNode (graph : WorkflowGraph) (kind : WorkflowNodeKind) (label : String) :
    Program WorkflowNode :=
  match graph.nodes.find? fun node => node.id == nodeId with
  | none => .fail s!"Workflow node `{nodeId}` not found"
  | some node =>
    if node.kind ≠ kind then .fail s!"Workflow node `{nodeId}` is not {label}" else return node

/-- Claim the interaction; answers the iteration it was about. -/
def claimInteraction (awaited : Awaited) (response : InteractionResponse) : Program ℤ := do
  match ← Program.exec (.claimInteraction runId nodeId interactionId awaited response) with
  | some (_, iteration) => return iteration
  | none => .fail "Workflow interaction is stale or already answered"

def approveHumanNode : Program Unit := do
  let run ← loadRuntimeRun runId
  let node ← interactionNode nodeId run.graph .humanGate "a human gate"
  let context ← nodeContext runId run.graph node run.inputText
  let iteration ← claimInteraction runId nodeId interactionId .human
    (.approve context.upstreamText)
  markNodeSucceeded runId nodeId iteration .update (some context.upstreamText)
  updateRunStatus runId .running none none
  driveWorkflowRun config runId run.graph run.inputText passes

/-- The awaited execution of a node: the named one if it is unanswered, or the latest. -/
def Db.awaitedExecution (db : Db) (runId : ℕ) (nodeId : String) (interactionId : Option ℕ)
    (status : NodeExecutionStatus) : Option NodeExecutionRow :=
  match interactionId with
  | some id => (db.ownExecutions runId).find? fun n => n.id = id ∧ n.nodeId = nodeId ∧
      n.status = status ∧ ∀ r ∈ db.responses, r.nodeExecutionId ≠ id
  | none => highestIteration ((db.ownExecutions runId).filter fun n =>
      n.nodeId == nodeId && decide (n.status = status))

def Db.executionOutput (db : Db) (runId : ℕ) (nodeId : String) (iteration : ℤ) : Option String :=
  ((db.ownExecutions runId).find? fun n => n.nodeId = nodeId ∧ n.iteration = iteration).bind
    (·.outputText)

def selectConditionBranch (selected : List String) (reason : Option String) : Program Unit := do
  let run ← loadRuntimeRun runId
  let node ← interactionNode nodeId run.graph .condition "a condition"
  match ← Program.read fun db => db.awaitedExecution runId nodeId interactionId .awaitingHuman with
  | none => .fail "Workflow interaction is stale or already answered"
  | some awaited => do
    let existing ← Program.read fun db => db.executionOutput runId nodeId awaited.iteration
    let route ← Prog.ofExcept (buildManualRoute config.router run.graph node selected reason
      (outputHasRouterMutationWarning config.router existing))
    let claimed ← claimInteraction runId nodeId interactionId .human
      (.branch route.outputText route.skippedTargetNodeIds)
    if claimed ≠ awaited.iteration then .fail "Workflow interaction changed"
    else do
      markNodeSucceeded runId nodeId awaited.iteration .update (some route.outputText)
      updateRunStatus runId .running none none
      driveWorkflowRun config runId run.graph run.inputText passes

/-- The Arena of the execution whose winner is chosen. -/
def Db.awaitedArena (db : Db) (runId : ℕ) (nodeId : String) (interactionId : Option ℕ) :
    Option ℕ :=
  (highestIteration ((db.ownExecutions runId).filter fun n => n.nodeId == nodeId &&
    decide (n.status = .awaitingArena) && interactionId.all fun id => n.id == id)).bind
      (·.arenaGroupId)

def selectArenaWinner (candidateId : ℕ) : Program Unit := do
  let run ← loadRuntimeRun runId
  let _ ← interactionNode nodeId run.graph .arena "an arena node"
  match ← Program.read fun db => db.awaitedArena runId nodeId interactionId with
  | none => .fail "Workflow Arena interaction is stale or unavailable"
  | some arenaGroupId => do
    let iteration ← claimInteraction runId nodeId interactionId .arena
      (.arenaWinner candidateId)
    match ← Program.exec (.port (.applyWinner runId nodeId arenaGroupId candidateId)) with
    | .ok outputText => do
      markNodeSucceeded runId nodeId iteration .update (some outputText)
      updateRunStatus runId .running none none
      driveWorkflowRun config runId run.graph run.inputText passes
    | .error message => do
      let _ ← failDispatch runId nodeId iteration .update
        (message ++ "; winner candidate: " ++ toString candidateId)
      return ()

def rejectHumanNode : Program Unit := do
  let run ← loadRuntimeRun runId
  if !(run.graph.nodes.any fun node => node.id == nodeId && decide (node.kind = .humanGate)) then
    .fail "Only a Human Gate can accept a workflow rejection"
  else do
    let iteration ← claimInteraction runId nodeId interactionId .human
      (.reject "Human gate rejected")
    let _ ← failDispatch runId nodeId iteration .update "Human gate rejected"
    return ()

end Interaction

section Cancellation
variable (runId : ℕ)

/-- A row that was never dispatched is cancelled at once, any other one is asked to stop. -/
def cancellationUpdate (n : NodeExecutionRow) : NodeExecutionUpdate :=
  if n.status = .pending ∨ n.status = .awaitingHuman ∧ n.nodeType = .humanGate then
    ⟨.cancelled, none, none, none, by decide⟩
  else ⟨.cancelling, none, none, none, by decide⟩

def projectNodesCancelling : Program Unit := do
  let rows ← Program.read fun db => (db.ownExecutions runId).filter fun n =>
    decide (n.status = .pending ∨ n.status = .running ∨ n.status = .awaitingHuman ∨
      n.status = .awaitingArena)
  Prog.forEach (fun n : NodeExecutionRow =>
    Program.exec (.updateNodeExecution .update runId n.nodeId n.iteration
      (cancellationUpdate n))) rows

def reconcileCancelling : Program Unit := do
  Program.exec (.cancelSettledArenas runId)
  if ← Program.read fun db => (db.ownExecutions runId).any fun n => nodeActive n.status then
    return ()
  else do
    Program.exec (.setPendingNodes runId)
    updateRunStatus runId .canceled none (some "Workflow run canceled")

def Db.arenaRuns (db : Db) (runId : ℕ) : List ℕ :=
  ((db.orchestration.runs.filter fun o => o.arena.isSome && (db.ownExecutions runId).any fun n =>
    n.arenaGroupId == o.arena).map (·.id)).dedup

def cancelWorkflowRun : Program Unit := do
  if !(← Program.read fun db => (db.run? runId).isSome) then .fail "Workflow run not found"
  else do
    let queued : Bool ← Program.exec (.cancelQueued runId)
    if queued then Program.exec (.setPendingNodes runId)
    else do
      let status ← fetchRunStatus runId
      let settled ← Program.read fun db => db.sourceBoundarySettled runId
      if status.isTerminal && settled then return ()
      else do
        updateRunStatus runId .cancelling none (some "Workflow run cancellation requested")
        projectNodesCancelling runId
        match ← Program.read fun db => (db.run? runId).bind (·.orchestrationRunId) with
        | some orchestration =>
          Program.require (Program.exec (.port (.cancelOrchestration orchestration)))
        | none => Program.require (Program.exec (.port (.cancelSessions runId)))
        let arenas ← Program.read fun db => db.arenaRuns runId
        Prog.forEach (fun arena : ℕ =>
          Program.require (Program.exec (.port (.cancelOrchestration arena)))) arenas
        reconcileCancelling runId

end Cancellation

structure AgentRunReconciliationResult where
  completed : Bool
  failed : Bool
  awaitingHuman : Bool
  cancelled : Bool
  deriving DecidableEq, Repr

section Reconciliation
variable (config : Config) (passes runId : ℕ)

/-- The executions of a run with a linked agent run, where one of the two is unfinished. -/
def Db.linkedExecutions (db : Db) (runId orchestrationRunId : ℕ) :
    List (NodeExecutionRow × ℕ) :=
  (db.ownExecutions runId).flatMap fun n =>
    (db.orchestration.links.filter fun l => l.orchestrationRunId == orchestrationRunId &&
      l.nodeKey == n.nodeId && l.iteration == n.iteration &&
      db.orchestration.agentRuns.any fun s => s.agentRunId == l.agentRunId &&
        (nodeActive n.status || !s.status.isTerminal)).map fun l => (n, l.agentRunId)

def agentFailure (state : AgentRunState) : String :=
  state.lastError.getD (match state.status with
    | .cancelled => "Workflow AgentRun was cancelled"
    | .crashed => "Workflow AgentRun crashed"
    | .auditFailed => "Workflow AgentRun audit failed"
    | _ => "Workflow AgentRun failed")

theorem awaitingHuman_started : NodeExecutionStatus.awaitingHuman ≠ .pending := by decide

def markNodeAwaitingInput (n : NodeExecutionRow) : Program Unit :=
  if n.status ≠ .awaitingHuman then
    markNodeWaiting runId n.nodeId n.iteration .update .awaitingHuman none none awaitingHuman_started
  else return ()

/-- Project the canonical agent runs on their executions. `settled` stays true while no agent run
is seen under way; an unavailable one is passed over. -/
def reconcileExecutions (graph : WorkflowGraph) (outcome : AgentRunReconciliationResult)
    (settled : Bool) : List (NodeExecutionRow × ℕ) → Program AgentRunReconciliationResult
  | [] => return { outcome with completed := settled && !outcome.awaitingHuman &&
      !outcome.failed && !outcome.cancelled }
  | (n, agentRunId) :: rest => do
    match ← Program.require (Program.exec (.port (.queryAgentRun agentRunId))) with
    | none => reconcileExecutions graph outcome settled rest
    | some state =>
      match state.status with
      | .succeeded =>
        if n.nodeType = .condition then do
          let pauses ← completeConditionRouter config runId graph n.nodeId n.iteration
            n.outputText (state.terminalOutput.getD "")
          reconcileExecutions graph
            { outcome with awaitingHuman := outcome.awaitingHuman || pauses } settled rest
        else do
          markNodeSucceeded runId n.nodeId n.iteration .update state.terminalOutput
          reconcileExecutions graph outcome settled rest
      | .awaitingInput | .awaitingApproval => do
        markNodeAwaitingInput runId n
        reconcileExecutions graph { outcome with awaitingHuman := true } settled rest
      | .cancelled => do
        Program.exec (.updateNodeExecution .update runId n.nodeId n.iteration
          ⟨.cancelled, none, none, some (agentFailure state), by decide⟩)
        reconcileExecutions graph { outcome with cancelled := true } settled rest
      | .failed | .crashed | .auditFailed => do
        markNodeFailed runId n.nodeId n.iteration .update (agentFailure state)
        reconcileExecutions graph { outcome with failed := true } settled rest
      | .pending | .starting | .running | .cancelling =>
        reconcileExecutions graph outcome false rest

/-- The canonical reconciliation of a run with its agent runs. -/
def reconcileBoundary : Program AgentRunReconciliationResult := do
  match ← Program.read fun db => (db.run? runId).bind (·.orchestrationRunId) with
  | none => return ⟨false, false, false, false⟩
  | some orchestration => do
    Program.require (Program.exec (.port (.reconcileOrchestration orchestration)))
    let arenas ← Program.read fun db => db.arenaRuns runId
    Prog.forEach (fun arena : ℕ =>
      Program.require (Program.exec (.port (.reconcileOrchestration arena)))) arenas
    let run ← loadRuntimeRun runId
    let rows ← Program.read fun db => db.linkedExecutions runId orchestration
    reconcileExecutions config runId run.graph ⟨false, false, false, false⟩ (!rows.isEmpty) rows

def Db.queuePhase? (db : Db) (runId : ℕ) : Option QueuePhase := (db.queue? runId).map (·.phase)

/-- The statuses a reconciliation works on. -/
def reconcilable (phase : Option QueuePhase) (status : WorkflowRunStatus) : Bool :=
  !(phase.any fun p => p.isUnclaimed || decide (p = .starting)) &&
    decide (status = .pending ∨ status = .running ∨ status = .awaitingHuman ∨
      status = .cancelling)

def reconcileWorkflowRun : Program Unit := do
  let run ← loadRuntimeRun runId
  let phase ← Program.read fun db => db.queuePhase? runId
  if !reconcilable phase run.status then return ()
  else do
    let outcome ← reconcileBoundary config runId
    if outcome.failed then do
      markPendingNodesSkipped runId
      updateRunStatus runId .failed none (some "Workflow agent execution failed")
    else if outcome.awaitingHuman then updateRunStatus runId .awaitingHuman none none
    else if outcome.cancelled then reconcileCancelling runId
    else if outcome.completed then do
      updateRunStatus runId .running none none
      driveWorkflowRun config runId run.graph run.inputText passes
    else return ()

/-- The runs whose orchestration is unfinished. -/
def Db.staleRuns (db : Db) : List ℕ :=
  (db.runs.filter fun r => r.orchestrationRunId.any fun id =>
    db.orchestration.runs.any fun o => o.id == id && (!o.finished ||
      (db.ownExecutions r.id).any (fun n => nodeActive n.status) ||
      (db.orchestration.links.filter fun l => l.orchestrationRunId == id).any fun l =>
        db.orchestration.agentRuns.any fun s =>
          s.agentRunId == l.agentRunId && !s.status.isTerminal)).map (·.id)

def recoverStaleWorkflowRuns : Program Unit := do
  let runs ← Program.read fun db => db.staleRuns
  Prog.forEach (fun id : ℕ => do
    let _ ← reconcileBoundary config id
    return ()) runs

end Reconciliation

section Start
variable (config : Config) (passes runId : ℕ)

def failAcceptedWorkflowRun (error : String) : Program Unit := do
  markPendingNodesSkipped runId
  updateRunStatus runId .failed none (some error)

/-- Create the orchestration of a run and link its executions to it. -/
def beginOrchestration : Program Unit := do
  Program.require (Program.exec (.port (.startOrchestration runId)))
  Program.exec (.setOrchestrationRun runId)
  Program.require (Program.exec (.port (.linkIdentities runId)))

def startAcceptedWorkflowRun : Program Unit := do
  if !(← Program.exec (.startRun runId)) then return ()
  else do
    let run ← loadRuntimeRun runId
    beginOrchestration runId
    Program.exec (.setQueueActive runId)
    driveWorkflowRun config runId run.graph run.inputText passes

/-- Recovery drives a run again only when nothing was dispatched or nothing is unresolved. -/
def Db.mayDrive (db : Db) (runId : ℕ) : Bool :=
  let own := db.ownExecutions runId
  (own.all (fun n => decide (n.status = .pending)) &&
    !(db.orchestration.links.any fun l => l.orchestrationRunId == runId)) ||
  own.all fun n => decide (n.status ≠ .running ∧ n.status ≠ .cancelling)

def recoverAcceptedWorkflowStart : Program Unit := do
  Program.require (Program.exec (.port (.linkIdentities runId)))
  let interrupted : ℕ ← Program.exec (.failInterruptedArenas runId)
  if 0 < interrupted then
    failAcceptedWorkflowRun runId "Arena winner application was interrupted during restart"
  else if ← Program.read fun db => db.mayDrive runId then do
    let run ← loadRuntimeRun runId
    driveWorkflowRun config runId run.graph run.inputText passes
  else return ()

def startOne : Program Unit := do
  match ← Prog.attempt (startAcceptedWorkflowRun config passes runId) with
  | .ok _ => return ()
  | .error error => failAcceptedWorkflowRun runId error

def recoverOne : Program Unit := do
  Program.exec (.setQueueStarting runId)
  if ← Program.read fun db => db.orchestration.runs.any fun o => o.id == runId then do
    Program.exec (.repairOrchestrationRun runId)
    recoverAcceptedWorkflowStart config passes runId
    Program.exec (.resumeQueueActive runId)
  else do
    Program.exec (.resetRunPending runId)
    startOne config passes runId

/-- The task of a scheduled run; the run leaves the dispatcher's set when it ends. -/
def startingTask (recover : Bool) : Program Unit := do
  let _ ← Prog.attempt (if recover then recoverOne config passes runId
    else startOne config passes runId)
  Program.exec (.leaveFlight runId)

/-- A run started outside the queue. -/
def triggerWorkflowRun (attemptId : Option ℕ) (projectId : ℕ) (graph : WorkflowGraph)
    (inputText : String) : Program Unit := do
  let _ ← Prog.ofExcept (validateGraphForRun graph)
  Program.require (Program.exec (.initializeRun runId attemptId projectId graph inputText none))
  beginOrchestration runId
  driveWorkflowRun config runId graph inputText passes

def acceptWorkflowRun (attemptId : Option ℕ) (projectId : ℕ) (graph : WorkflowGraph)
    (inputText : String) : Program Unit := do
  if ← Program.read fun db => (db.run? runId).isSome then return ()
  else do
    let _ ← Prog.ofExcept (validateGraphForRun graph)
    Program.require (Program.exec (.initializeRun runId attemptId projectId graph inputText
      (some projectId)))
    Program.exec (.syncAttempt runId)

end Start

section Dispatcher
variable (config : Config) (passes : ℕ)

def deliverStopIntents : Program Unit := do
  let intents ← Program.read fun db => db.stopIntents.filter fun i => !i.delivered
  Prog.forEach (fun intent : StopIntentRow => do
    if ← Program.read fun db => db.inFlight.contains intent.runId then return ()
    else match ← Prog.attempt (cancelWorkflowRun intent.runId) with
      | .error _ => return ()
      | .ok _ => do
        Program.exec (.syncAttempt intent.runId)
        let _ ← Program.exec (.releaseTerminal intent.runId)
        Program.exec (.deliverIntent intent.id)) intents

def resolveWaitingSubmissions : Program Unit := do
  let runs ← Program.read fun db => db.waitingRuns
  Prog.forEach (fun id : ℕ => do
    let _ ← Program.exec (.resolveWaiting id)
    return ()) runs

def recoverStarting (includeActive : Bool) : Program Unit := do
  let runs ← Program.read fun db => db.recoverable includeActive
  Prog.forEach (fun id : ℕ => do
    let _ ← Program.exec (.enterFlight id)
    return ()) runs

/-- Claim entries while there are some; each claimed run enters the dispatcher's set. -/
def claimAll : ℕ → Program Unit
  | 0 => do
    let stuck ← Program.exec .never
    nomatch stuck
  | claims + 1 => do
    match ← Program.exec .claimNext with
    | none => return ()
    | some id => do
      let _ ← Program.exec (.enterFlight id)
      claimAll claims

/-- Reconcile the run of a slot and give the slot back if it can be. -/
def reconcileSlot (runId : ℕ) : Program Unit := do
  if ← Program.read fun db => db.inFlight.contains runId then return ()
  else match ← Prog.attempt (reconcileBoundary config runId) with
    | .error _ => return ()
    | .ok _ => do
      let _ ← Prog.attempt (do
        reconcileWorkflowRun config passes runId
        Program.exec (.syncAttempt runId)
        let _ ← Program.exec (.releaseTerminal runId)
        return ())
      return ()

/-- One pass of the dispatcher. -/
def tick : Program Unit := do
  deliverStopIntents
  let slots ← Program.read fun db => db.slots.map (·.runId)
  Prog.forEach (reconcileSlot config passes) slots
  resolveWaitingSubmissions
  claimAll passes

def submitWorkflow (scope : SubmissionScope) (submission : WorkflowSubmission) (runId : ℕ) :
    Program Unit := do
  let _ ← Program.require (Program.exec (.submit scope submission runId))
  return ()

def stopWorkflow (callerNamespace : String) (instanceId runId : ℕ) (requestId : String) :
    Program Unit := do
  Program.require (Program.exec (.stop callerNamespace instanceId runId requestId))
  deliverStopIntents

end Dispatcher

/-- The programs that may run beside each other. `passes` bounds the loops of a program; runs of
every length arise because it is arbitrary. -/
inductive Operation (config : Config) : Program Unit → Prop where
  | drive (passes runId : ℕ) (graph : WorkflowGraph) (inputText : String) :
    Operation config (driveWorkflowRun config runId graph inputText passes)
  | approve (passes runId : ℕ) (nodeId : String) (interactionId : Option ℕ) :
    Operation config (approveHumanNode config passes runId nodeId interactionId)
  | reject (runId : ℕ) (nodeId : String) (interactionId : Option ℕ) :
    Operation config (rejectHumanNode runId nodeId interactionId)
  | branch (passes runId : ℕ) (nodeId : String) (interactionId : Option ℕ)
    (selected : List String) (reason : Option String) :
    Operation config (selectConditionBranch config passes runId nodeId interactionId selected reason)
  | winner (passes runId : ℕ) (nodeId : String) (interactionId : Option ℕ) (candidateId : ℕ) :
    Operation config (selectArenaWinner config passes runId nodeId interactionId candidateId)
  | cancel (runId : ℕ) : Operation config (cancelWorkflowRun runId)
  | reconcile (passes runId : ℕ) : Operation config (reconcileWorkflowRun config passes runId)
  | reconcileCancelling (runId : ℕ) : Operation config (reconcileCancelling runId)
  | recoverStale : Operation config (recoverStaleWorkflowRuns config)
  | startAccepted (passes runId : ℕ) :
    Operation config (startAcceptedWorkflowRun config passes runId)
  | startingTask (passes runId : ℕ) (recover : Bool) :
    Operation config (startingTask config passes runId recover)
  | trigger (passes runId : ℕ) (attemptId : Option ℕ) (projectId : ℕ) (graph : WorkflowGraph)
    (inputText : String) :
    Operation config (triggerWorkflowRun config passes runId attemptId projectId graph inputText)
  | accept (runId : ℕ) (attemptId : Option ℕ) (projectId : ℕ) (graph : WorkflowGraph)
    (inputText : String) :
    Operation config (acceptWorkflowRun runId attemptId projectId graph inputText)
  | submit (scope : SubmissionScope) (submission : WorkflowSubmission) (runId : ℕ) :
    Operation config (submitWorkflow scope submission runId)
  | stop (callerNamespace : String) (instanceId runId : ℕ) (requestId : String) :
    Operation config (stopWorkflow callerNamespace instanceId runId requestId)
  | deliver : Operation config deliverStopIntents
  | resolve : Operation config resolveWaitingSubmissions
  | recoverStarting (includeActive : Bool) : Operation config (recoverStarting includeActive)
  | tick (passes : ℕ) : Operation config (tick config passes)

/-- The state of the system: the database and the operations under way. -/
abbrev System := World Stmt Stmt.Ans String Db

/-- Interleavings of the operations, under a guard on their statements. -/
abbrev Interleaves (config : Config) (guard : Stmt → Db → Bool) : System → System → Prop :=
  Steps (Stmt.Exec config.router.json.fromStr) OrchestrationMoves (Operation config)
    fun s db => guard s db = true

/-- Every statement may run. -/
def unguarded : Stmt → Db → Bool := fun _ _ => true

/-- Every port accepts what it is asked for, and agents keep running. -/
def Port.accept : (call : Port) → call.Ans
  | runAgent .. => .ok (.started 0 none)
  | createArena .. => .ok 0
  | applyWinner .. => .ok ""
  | worktreeSnapshot .. => .ok none
  | queryAgentRun .. => .ok none
  | canonicalNodeIdentity .. | routerSession .. | startOrchestration .. | linkIdentities ..
  | cancelOrchestration .. | cancelSessions .. | reconcileOrchestration .. => .ok ()

/-- A statement with accepting ports. -/
def Stmt.answer (fromStr : String → Option Json) : (s : Stmt) → Db → Option (s.Ans × Db)
  | port call, db => some (call.accept, db)
  | s, db => s.run fromStr db

def Stmt.accept (config : Config) (guard : Stmt → Db → Bool) (s : Stmt) (db : Db) :
    Option (s.Ans × Db) :=
  if guard s db then s.answer config.router.json.fromStr db else none

theorem Stmt.answer_exec {fromStr : String → Option Json} (s : Stmt) {db db' : Db} {a : s.Ans}
    (h : s.answer fromStr db = some (a, db')) : s.Exec fromStr db a db' := by
  cases s with
  | port call =>
    obtain rfl : db = db' := run_snd h
    cases call with
    | createArena => exact Or.inl ⟨db.orchestration, rfl⟩
    | _ => exact ⟨db.orchestration, rfl⟩
  | _ => exact h

theorem Stmt.accept_exec {config : Config} {guard : Stmt → Db → Bool} (s : Stmt) {db db' : Db}
    {a : s.Ans} (h : s.accept config guard db = some (a, db')) :
    guard s db = true ∧ s.Exec config.router.json.fromStr db a db' := by
  rw [accept] at h
  split_ifs at h with hguard
  exact ⟨hguard, s.answer_exec h⟩

/-- A schedule with accepting ports is an interleaving. -/
theorem follow_interleaves {config : Config} {guard : Stmt → Db → Bool} {schedule : List ℕ}
    {w w' : System} (h : follow (Stmt.accept config guard) schedule w = some w') :
    Interleaves config guard w w' :=
  follow_steps (fun s _ _ _ hrun => s.accept_exec hrun) h

/-- Some operations start beside each other. -/
theorem start_interleaves {config : Config} (guard : Stmt → Db → Bool) (db : Db)
    {programs : List (Program Unit)} (h : ∀ p ∈ programs, Operation config p) :
    Interleaves config guard (.start db) ⟨[], db, programs⟩ := by
  induction programs with
  | nil => exact .refl
  | cons p rest ih =>
    exact (ih fun q hq => h q (List.mem_cons_of_mem p hq)).tail (Step.spawn (h p List.mem_cons_self))

/-- A workflow that ends where it starts. -/
def straightGraph : WorkflowGraph :=
  ⟨2, [⟨"start", .start, none, none⟩, ⟨"end", .end, none, none⟩], [⟨"e", "start", "end"⟩], none⟩

end VibeKanban.Runtime
