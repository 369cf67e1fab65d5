import VibeKanban.Runtime.Queue

/-! Accepting runs: creating their rows, fixing their plan, and stopping them before they start. -/
namespace VibeKanban.Runtime
open Lib Workflow

inductive WorkflowSubmissionAction where
  | start | retry | rework
  deriving DecidableEq, Repr

inductive WorkflowActivePolicy where
  | afterCurrent | stopThenRun
  deriving DecidableEq, Repr

/-- `roots` is the requested scope, `none` for every node. -/
structure WorkflowSubmission where
  requestId : String
  requestHash : String
  action : WorkflowSubmissionAction
  inputText : Option String
  sourceRunId : Option ℕ
  sourceNodeExecutionId : Option ℕ
  roots : Option (List String)
  activePolicy : Option WorkflowActivePolicy
  deriving DecidableEq, Repr

/-- The resolved caller. `graph` is the published definition that a first acceptance freezes. -/
structure SubmissionScope where
  callerNamespace : String
  instanceId : Option ℕ
  issueId : ℕ
  projectId : ℕ
  graph : WorkflowGraph

namespace Db

/-- A new run becomes the latest one of its instance. -/
def insertRun (db : Db) (run : RunRow) : Db :=
  { db with
    runs := db.runs ++ [run]
    attempts := updateWhere (fun a => some a.id == run.attemptId)
      (fun a => { a with latestRunId := some run.id }) db.attempts }

/-- Sequence numbers only grow. -/
def enqueue (db : Db) (runId projectId : ℕ) (phase : QueuePhase) : Except String Db :=
  if (db.queue? runId).isSome then .error "UNIQUE constraint failed: workflow_run_queue"
  else .ok { db with
    queue := db.queue ++ [⟨db.nextSequence, runId, projectId, phase⟩]
    nextSequence := db.nextSequence + 1 }

/-- The first iteration of some nodes. -/
def materializeAll (db : Db) (runId : ℕ) (nodes : List WorkflowNode) : Except String Db :=
  nodes.foldlM (fun db node => db.materializeNodeExecution runId node 0) db

/-- Insert the run, its first executions and its queue entry; an existing run is left alone. -/
def initializeRun (db : Db) (runId : ℕ) (attemptId : Option ℕ) (projectId : ℕ)
    (graph : WorkflowGraph) (inputText : String) (queueProjectId : Option ℕ) (phase : QueuePhase)
    (affected : Option (List String)) : Except String Db :=
  if (db.run? runId).isSome then .ok db
  else do
    let status : WorkflowRunStatus := if queueProjectId.isSome then .pending else .running
    let db ← (db.insertRun ⟨runId, attemptId, projectId, graph, inputText, status, none, none,
      none⟩).materializeAll runId (graph.nodes.filter fun node =>
        affected.all fun ids => ids.contains node.id)
    match queueProjectId with
    | none => return db
    | some project => db.enqueue runId project phase

/-- The source of a reused result must be a real execution. -/
def insertReuse (db : Db) (runId : ℕ) (binding : ReuseBinding) : Except String Db :=
  match parseExecutionId binding.sourceExecutionId with
  | none => .error "Reuse lineage is not an actual execution"
  | some sourceId =>
    if db.reuse.any fun r =>
        r.runId == runId && r.nodeId == binding.nodeId && r.iteration == binding.iteration then
      .error "UNIQUE constraint failed: workflow_result_reuse"
    else if db.nodeExecutions.any fun n => n.id == sourceId then
      .ok { db with reuse := db.reuse ++ [⟨runId, binding.nodeId, binding.iteration, sourceId⟩] }
    else .error "FOREIGN KEY constraint failed"

def insertDisposition (db : Db) (runId : ℕ) (nodeId : String) : Except String Db :=
  if db.dispositions.any fun d => d.runId == runId && d.nodeId == nodeId then
    .error "UNIQUE constraint failed: workflow_node_dispositions"
  else .ok { db with dispositions := db.dispositions ++ [⟨runId, nodeId⟩] }

def setPlanning (db : Db) (runId : ℕ) (state : PlanningState) (affected : Option (List String)) :
    Db :=
  { db with
    submissions := updateWhere (fun s => s.runId == runId && decide (s.planningState = .pending))
      (fun s => { s with planningState := state, affectedNodes := affected.or s.affectedNodes })
      db.submissions }

/-- Write a plan: the reused results, the skipped nodes and a pending row for every affected one. -/
def applyRunPlan (db : Db) (runId : ℕ) (graph : WorkflowGraph) (plan : ReworkPlan) :
    Except String Db := do
  let db ← plan.reuse.foldlM (fun db binding => db.insertReuse runId binding) db
  let db ← plan.skippedNodeIds.foldlM (fun db id => db.insertDisposition runId id) db
  let db ← db.materializeAll runId
    (graph.nodes.filter fun node => plan.affectedNodeIds.contains node.id)
  return db.setPlanning runId .ready (some plan.affectedNodeIds)

/-- One transaction: an unclaimed entry is finished and its pending run canceled. -/
def cancelPending (db : Db) (runId : ℕ) : Bool × Db := db.cancelQueued runId

/-- An instance without a latest run takes the observed one. -/
def syncAttempt (db : Db) (runId : ℕ) : Db :=
  { db with
    attempts := updateWhere (fun a => a.latestRunId.isNone &&
      db.runs.any fun r => r.id == runId && r.attemptId == some a.id)
      (fun a => { a with latestRunId := some runId }) db.attempts }

section
variable (fromStr : String → Option Json)

/-- Plan against the settled source and write the plan, or fail the accepted run. -/
def fixRunPlan (db : Db) (runId : ℕ) (graph : WorkflowGraph) (roots : Option (List String))
    (sourceRunId : Option ℕ) : Except String Db :=
  match planRework fromStr graph roots ((sourceRunId.map db.sourceExecutions).getD []) with
  | .ok plan => db.applyRunPlan runId graph plan
  | .error error => .ok (((db.setPlanning runId .failed none).setRuns
      (fun r => r.id == runId && decide (r.status = .pending))
      (fun r => { r with
        status := .failed
        errorText := some ("WORKFLOW_PLANNING_FAILED: " ++ error) })).setQueue
      (fun q => q.runId == runId && q.phase.isUnclaimed) .finished)

def awaitsPlan (db : Db) (runId : ℕ) : Bool :=
  (db.queue.any fun q => q.runId == runId && q.phase.isWaiting) &&
    (db.runs.any fun r => r.id == runId && decide (r.status = .pending)) &&
    db.submissions.any fun s => s.runId == runId && decide (s.planningState = .pending)

/-- One transaction: once the source has settled, the plan is fixed and the entry queued. -/
def resolveWaiting (db : Db) (runId : ℕ) : Except String Db :=
  if !db.awaitsPlan runId then .ok db
  else match db.run? runId, db.submissions.find? (fun s => s.runId = runId) with
    | some run, some submission =>
      match submission.sourceRunId with
      | none => .error "NULL source_run_id"
      | some source =>
        if !db.sourceBoundarySettled source then .ok db
        else do
          let db ← db.fixRunPlan fromStr runId run.graph submission.roots (some source)
          return db.setQueue (fun q => q.runId == runId && q.phase.isWaiting &&
            (db.runs.any fun r => r.id == runId && decide (r.status = .pending)) &&
            db.submissions.any fun s => s.runId == runId && decide (s.planningState = .ready))
            .queued
    | _, _ => .ok db

/-- The entries a dispatcher pass tries to resolve, in queue order. -/
def waitingRuns (db : Db) : List ℕ :=
  ((db.queue.filter fun q => db.awaitsPlan q.runId).insertionSort
    fun a b => a.sequence ≤ b.sequence).map (·.runId)

/-- An earlier acceptance of the same request of the same caller. -/
def replayed (db : Db) (scope : SubmissionScope) (submission : WorkflowSubmission) :
    Option SubmissionRow :=
  db.submissions.find? fun s => some s.instanceId = scope.instanceId ∧
    s.callerNamespace = scope.callerNamespace ∧ s.requestId = submission.requestId

def latestRun (db : Db) (instanceId : Option ℕ) : Option ℕ :=
  (db.attempts.find? fun a => some a.id = instanceId).bind (·.latestRunId)

/-- A first execution has no source; a later one names the latest accepted run. -/
def checkAction (db : Db) (scope : SubmissionScope) (submission : WorkflowSubmission) :
    Except String Unit :=
  match submission.action with
  | .start =>
    if (db.latestRun scope.instanceId).isSome ∨ submission.sourceRunId.isSome ∨
        submission.sourceNodeExecutionId.isSome then
      .error ("start is only for initial acceptance; use retry or rework on the existing " ++
        "instance")
    else if submission.activePolicy.isSome ∨ submission.roots.isSome then
      .error "Initial execution does not have a source policy or partial scope"
    else .ok ()
  | _ =>
    if submission.sourceRunId.isNone ∨ db.latestRun scope.instanceId ≠ submission.sourceRunId then
      .error ("STALE_EXECUTION_BASIS: source_run_id must be this instance's latest accepted Run; " ++
        "reload its current history")
    else .ok ()

/-- The source run of the request, which must belong to the instance. -/
def submissionSource (db : Db) (scope : SubmissionScope) (submission : WorkflowSubmission) :
    Except String (Option RunRow) :=
  match submission.sourceRunId with
  | none => .ok none
  | some id =>
    match db.runs.find? fun r => r.id = id ∧ r.attemptId = scope.instanceId with
    | some run => .ok (some run)
    | none => .error "Source Run does not belong to this instance"

def checkPolicy (submission : WorkflowSubmission) (source : Option RunRow) : Except String Unit :=
  let unfinished := source.any fun run => !run.status.isTerminal
  if unfinished && decide (submission.action = .rework) && submission.activePolicy.isNone then
    .error ("Choose after_current or stop_then_run for an unfinished source; " ++
      "no implicit stop is allowed")
  else if decide (submission.action = .retry) &&
      (unfinished || submission.activePolicy.isSome) then
    .error "INVALID_RETRY_TARGET: Retry requires a settled failed source execution"
  else .ok ()

def submissionInput (submission : WorkflowSubmission) (source : Option RunRow) :
    Except String String :=
  match submission.action with
  | .retry =>
    match source with
    | some run => .ok run.inputText
    | none => .error "Retry requires a source"
  | _ =>
    match submission.inputText.filter fun text => !isBlank text with
    | some text => .ok text
    | none => .error "Accepted requirements are required for start/rework"

/-- The instance and its definition: the bound one, the one its task already has, or a new one. -/
def submissionInstance (db : Db) (scope : SubmissionScope) :
    Except String (ℕ × WorkflowGraph × Db) :=
  match scope.instanceId with
  | some id =>
    match db.attempts.find? fun a => a.id = id with
    | some attempt => .ok (id, attempt.graph, db)
    | none => .error "no rows returned"
  | none =>
    match db.attempts.find? fun a => a.issueId = scope.issueId with
    | some attempt =>
      if attempt.latestRunId.isSome then
        .error "Task already has accepted work; read its existing workflow instance first"
      else .ok (attempt.id, attempt.graph, db)
    | none => .ok (db.nextId, scope.graph, { db with
        attempts := db.attempts ++ [⟨db.nextId, scope.issueId, scope.graph, none⟩]
        nextId := db.nextId + 1 })

def retryable : WorkflowNodeKind → Bool
  | .agent | .condition | .transform => true
  | _ => false

/-- A retry runs again from the node of one failed execution of its source. -/
def submissionRoots (db : Db) (submission : WorkflowSubmission) :
    Except String (Option (List String)) :=
  match submission.action with
  | .retry =>
    match submission.sourceNodeExecutionId with
    | none => .error "INVALID_RETRY_TARGET: Retry requires source_node_execution_id"
    | some executionId =>
      match db.nodeExecutions.find? fun n => n.id = executionId ∧
          some n.runId = submission.sourceRunId ∧ n.status = .failed ∧ retryable n.nodeType with
      | some n => .ok (some [n.nodeId])
      | none => .error ("INVALID_RETRY_TARGET: Retry source must be an actual supported failed " ++
          "NodeExecution of this source Run")
  | _ => .ok submission.roots

def checkRoots (graph : WorkflowGraph) (roots : Option (List String)) : Except String Unit :=
  match roots with
  | none => .ok ()
  | some ids =>
    if ids.isEmpty || ids.dedup.length != ids.length ||
        ids.any fun id => !graph.nodeIds.contains id then
      .error "INVALID_REWORK_SCOPE: Partial scope requires distinct frozen-graph Node IDs"
    else .ok ()

/-- The plan against a settled source; known-invalid input is refused. -/
def settledPlan (db : Db) (graph : WorkflowGraph) (roots : Option (List String))
    (sourceRunId : Option ℕ) : Except String (Option ReworkPlan) :=
  if sourceRunId.all db.sourceBoundarySettled then
    match planRework fromStr graph roots ((sourceRunId.map db.sourceExecutions).getD []) with
    | .ok plan => .ok (some plan)
    | .error error =>
      if error.startsWith "Cannot reuse" then .error ("REUSE_UNAVAILABLE: " ++ error)
      else .error ("INVALID_REWORK_SCOPE: " ++ error)
  else .ok none

def insertSubmission (db : Db) (row : SubmissionRow) : Except String Db :=
  if db.submissions.any fun s => s.runId == row.runId || s.callerNamespace == row.callerNamespace &&
      s.instanceId == row.instanceId && s.requestId == row.requestId then
    .error "UNIQUE constraint failed: workflow_run_submissions"
  else .ok { db with submissions := db.submissions ++ [row] }

def insertStopIntent (db : Db) (callerNamespace requestId : String) (runId : ℕ)
    (successorRunId : Option ℕ) : Db :=
  { db with
    stopIntents := db.stopIntents ++
      [⟨db.nextId, callerNamespace, requestId, runId, successorRunId, false⟩]
    nextId := db.nextId + 1 }

/-- The phase of a new entry: an unsettled source makes it wait. -/
def submissionPhase (submission : WorkflowSubmission) (plan : Option ReworkPlan) : QueuePhase :=
  if plan.isSome then .queued
  else if submission.activePolicy = some .stopThenRun then .stoppingSource
  else .waitingForSource

/-- Ask the unsettled source of a replacing request to stop. -/
def stopSource (db : Db) (scope : SubmissionScope) (submission : WorkflowSubmission) (runId : ℕ)
    (plan : Option ReworkPlan) : Except String Db :=
  if plan.isNone ∧ submission.activePolicy = some .stopThenRun then
    match submission.sourceRunId with
    | none => .error "Stop policy requires a source"
    | some source => .ok ((db.insertStopIntent scope.callerNamespace
        ("replacement:" ++ submission.requestId) source (some runId)).cancelPending source).2
  else .ok db

/-- One transaction: the request, the new run, its queue entry, its dependency and the stop
request of its source. -/
def submit (db : Db) (scope : SubmissionScope) (submission : WorkflowSubmission) (runId : ℕ) :
    Except String (ℕ × Db) := do
  match db.replayed scope submission with
  | some row =>
    if row.requestHash ≠ submission.requestHash then
      .error "IDEMPOTENCY_CONFLICT: request_id has different parameters"
    else return (row.runId, db)
  | none =>
    db.checkAction scope submission
    let source ← db.submissionSource scope submission
    checkPolicy submission source
    let input ← submissionInput submission source
    let (instanceId, graph, db) ← db.submissionInstance scope
    let _ ← validateGraphForRun graph
    let roots ← db.submissionRoots submission
    checkRoots graph roots
    let plan ← db.settledPlan fromStr graph roots submission.sourceRunId
    let db ← db.initializeRun runId (some instanceId) scope.projectId graph input
      (some scope.projectId) (submissionPhase submission plan) (some [])
    let db ← db.insertSubmission ⟨runId, instanceId, scope.callerNamespace, submission.requestId,
      submission.requestHash, roots, submission.sourceRunId, .pending, none⟩
    let db ← db.stopSource scope submission runId plan
    match plan with
    | none => return (runId, db)
    | some plan => return (runId, ← db.applyRunPlan runId graph plan)

/-- What an accepted request did: a replay changes nothing, anything else is this chain. -/
theorem submit_cases {db db' : Db} {scope : SubmissionScope} {submission : WorkflowSubmission}
    {runId id : ℕ} (h : db.submit fromStr scope submission runId = .ok (id, db')) :
    (∃ row, db.replayed scope submission = some row ∧ row.requestHash = submission.requestHash ∧
      id = row.runId ∧ db' = db) ∨ db.replayed scope submission = none ∧
      db.checkAction scope submission = .ok () ∧ id = runId ∧
      ∃ source input instanceId graph db₀ roots plan db₁ db₂ db₃,
      db.submissionSource scope submission = .ok source ∧
      db.submissionInstance scope = .ok (instanceId, graph, db₀) ∧
      db₀.settledPlan fromStr graph roots submission.sourceRunId = .ok plan ∧
      db₀.initializeRun runId (some instanceId) scope.projectId graph input
        (some scope.projectId) (submissionPhase submission plan) (some []) = .ok db₁ ∧
      db₁.insertSubmission ⟨runId, instanceId, scope.callerNamespace, submission.requestId,
        submission.requestHash, roots, submission.sourceRunId, .pending, none⟩ = .ok db₂ ∧
      db₂.stopSource scope submission runId plan = .ok db₃ ∧
      ((plan = none ∧ db' = db₃) ∨
        ∃ fixed, plan = some fixed ∧ db₃.applyRunPlan runId graph fixed = .ok db') := by
  rw [submit] at h
  split at h
  · rename_i row hrow
    split_ifs at h with hhash
    obtain ⟨hid, hdb⟩ := Prod.mk.inj (Except.ok.inj h)
    exact Or.inl ⟨row, hrow, by simpa using hhash, hid.symm, hdb.symm⟩
  · rename_i hnew
    obtain ⟨_, hcheck, h⟩ := except_bind_ok h
    obtain ⟨source, hsource, h⟩ := except_bind_ok h
    obtain ⟨_, _, h⟩ := except_bind_ok h
    obtain ⟨input, _, h⟩ := except_bind_ok h
    obtain ⟨⟨instanceId, graph, db₀⟩, h₀, h⟩ := except_bind_ok h
    obtain ⟨_, _, h⟩ := except_bind_ok h
    obtain ⟨roots, _, h⟩ := except_bind_ok h
    obtain ⟨_, _, h⟩ := except_bind_ok h
    obtain ⟨plan, hplan, h⟩ := except_bind_ok h
    obtain ⟨db₁, h₁, h⟩ := except_bind_ok h
    obtain ⟨db₂, h₂, h⟩ := except_bind_ok h
    obtain ⟨db₃, h₃, h⟩ := except_bind_ok h
    cases plan with
    | none =>
      obtain ⟨hid, hdb⟩ := Prod.mk.inj (Except.ok.inj h)
      exact Or.inr ⟨hnew, hcheck, hid.symm, source, input, instanceId, graph, db₀, roots, none, db₁,
        db₂, db₃, hsource, h₀, hplan, h₁, h₂, h₃, Or.inl ⟨rfl, hdb.symm⟩⟩
    | some plan =>
      obtain ⟨db₄, h₄, h⟩ := except_bind_ok h
      obtain ⟨hid, rfl⟩ := Prod.mk.inj (Except.ok.inj h)
      exact Or.inr ⟨hnew, hcheck, hid.symm, source, input, instanceId, graph, db₀, roots, some plan,
        db₁, db₂, db₃, hsource, h₀, hplan, h₁, h₂, h₃, Or.inr ⟨plan, rfl, h₄⟩⟩

/-- The runs that were submitted on top of a run, directly or through others. -/
def successors (db : Db) (instanceId runId : ℕ) : List ℕ :=
  let dependencies := (db.submissions.filter fun s => s.instanceId == instanceId).filterMap
    fun s => s.sourceRunId.map fun source => (source, s.runId)
  saturate dependencies Prod.fst Prod.snd (fun _ => true) (dependencies.length + 1) [runId]

/-- Cancel the given runs as far as they are still unclaimed, and collect those that were. -/
def cancelAll : List ℕ → Db → List ℕ × Db
  | [], db => ([], db)
  | id :: rest, db =>
    let step := db.cancelPending id
    let others := cancelAll rest step.2
    (if step.1 then id :: others.1 else others.1, others.2)

/-- The unclaimed successors of a run, in queue order. -/
def waitingSuccessors (db : Db) (instanceId runId : ℕ) : List ℕ :=
  ((db.queue.filter fun q => q.runId != runId && q.phase.isUnclaimed &&
    (db.successors instanceId runId).contains q.runId &&
    db.runs.any fun r => r.id == q.runId && decide (r.status = .pending)).insertionSort
      fun a b => a.sequence ≤ b.sequence).map (·.runId)

/-- One transaction: the unclaimed successors and the run itself are cancelled, and the scope of
the stop is recorded for its replay. -/
def stop (db : Db) (callerNamespace : String) (instanceId runId : ℕ) (requestId : String) :
    Except String Db :=
  if !(db.runs.any fun r => r.id == runId && r.attemptId == some instanceId) then
    .error "Run is not part of the bound workflow instance"
  else if db.stopRequests.any fun s => s.callerNamespace == callerNamespace && s.runId == runId &&
      s.requestId == requestId && !s.affectedRunIds.isEmpty then .ok db
  else
    let others := db.cancelAll (db.waitingSuccessors instanceId runId)
    let db := (others.2.cancelPending runId).2
    let db := if db.stopIntents.any fun i => i.callerNamespace == callerNamespace &&
        i.runId == runId && i.requestId == requestId then db
      else db.insertStopIntent callerNamespace requestId runId none
    .ok { db with
      stopRequests := db.stopRequests ++ [⟨callerNamespace, runId, requestId, runId :: others.1⟩] }

def deliverIntent (db : Db) (intentId : ℕ) : Db :=
  { db with
    stopIntents := updateWhere (fun i => i.id == intentId && !i.delivered)
      (fun i => { i with delivered := true }) db.stopIntents }

end

section Inversion
variable {db db' : Db} {runId : ℕ}

theorem initializeRun_cases {attemptId : Option ℕ} {projectId : ℕ} {graph : WorkflowGraph}
    {inputText : String} {queueProjectId : Option ℕ} {phase : QueuePhase}
    {affected : Option (List String)} (h : db.initializeRun runId attemptId projectId graph
      inputText queueProjectId phase affected = .ok db') :
    ((db.run? runId).isSome = true ∧ db' = db) ∨ db.run? runId = none ∧ ∃ mid,
      (db.insertRun ⟨runId, attemptId, projectId, graph, inputText,
        if queueProjectId.isSome then .pending else .running, none, none,
        none⟩).materializeAll runId (graph.nodes.filter fun node =>
          affected.all fun ids => ids.contains node.id) = .ok mid ∧
      ((queueProjectId = none ∧ db' = mid) ∨ ∃ project, queueProjectId = some project ∧
        mid.enqueue runId project phase = .ok db') := by
  rw [initializeRun] at h
  by_cases hexists : (db.run? runId).isSome = true
  · rw [if_pos hexists] at h
    exact Or.inl ⟨hexists, (Except.ok.inj h).symm⟩
  · rw [if_neg hexists] at h
    obtain ⟨mid, hmid, h⟩ := except_bind_ok h
    refine Or.inr ⟨by simpa using hexists, mid, hmid, ?_⟩
    cases queueProjectId with
    | none => exact Or.inl ⟨rfl, (Except.ok.inj h).symm⟩
    | some project => exact Or.inr ⟨project, rfl, h⟩

theorem insertReuse_ok {binding : ReuseBinding} (h : db.insertReuse runId binding = .ok db') :
    ∃ id, parseExecutionId binding.sourceExecutionId = some id ∧
      db' = { db with reuse := db.reuse ++ [⟨runId, binding.nodeId, binding.iteration, id⟩] } := by
  simp only [insertReuse] at h
  split at h
  · cases h
  · rename_i id hid
    split_ifs at h
    exact ⟨id, hid, (Except.ok.inj h).symm⟩

theorem insertDisposition_ok {nodeId : String} (h : db.insertDisposition runId nodeId = .ok db') :
    db' = { db with dispositions := db.dispositions ++ [⟨runId, nodeId⟩] } := by
  rw [insertDisposition] at h
  split_ifs at h
  exact (Except.ok.inj h).symm

theorem insertSubmission_ok {row : SubmissionRow} (h : db.insertSubmission row = .ok db') :
    db' = { db with submissions := db.submissions ++ [row] } := by
  rw [insertSubmission] at h
  split_ifs at h
  exact (Except.ok.inj h).symm

theorem submissionInstance_tables {scope : SubmissionScope} {instanceId : ℕ}
    {graph : WorkflowGraph} (h : db.submissionInstance scope = .ok (instanceId, graph, db')) :
    ∃ attempts nextId, db.nextId ≤ nextId ∧
      db' = { db with attempts := attempts, nextId := nextId } := by
  rw [submissionInstance] at h
  split at h
  · split at h
    · obtain ⟨_, _, rfl⟩ := by simpa using h
      exact ⟨_, _, le_rfl, rfl⟩
    · cases h
  · split at h
    · split_ifs at h
      obtain ⟨_, _, rfl⟩ := by simpa using h
      exact ⟨_, _, le_rfl, rfl⟩
    · obtain ⟨_, _, rfl⟩ := by simpa using h
      exact ⟨_, _, Nat.le_succ _, rfl⟩

theorem stopSource_cases {scope : SubmissionScope} {submission : WorkflowSubmission}
    {plan : Option ReworkPlan} (h : db.stopSource scope submission runId plan = .ok db') :
    db' = db ∨ ∃ source, submission.sourceRunId = some source ∧
      db' = ((db.insertStopIntent scope.callerNamespace ("replacement:" ++ submission.requestId)
        source (some runId)).cancelPending source).2 := by
  rw [stopSource] at h
  split_ifs at h
  · split at h
    · cases h
    · rename_i source hsource
      exact Or.inr ⟨source, hsource, (Except.ok.inj h).symm⟩
  · exact Or.inl (Except.ok.inj h).symm

/-- A dependency is resolved once: its source has settled and its plan is fixed. -/
theorem resolveWaiting_cases (fromStr : String → Option Json)
    (h : db.resolveWaiting fromStr runId = .ok db') :
    db' = db ∨ ∃ (run : RunRow) (submission : SubmissionRow) (source : ℕ) (mid : Db),
      db.awaitsPlan runId = true ∧
      db.run? runId = some run ∧ submission.sourceRunId = some source ∧
      db.sourceBoundarySettled source = true ∧
      db.fixRunPlan fromStr runId run.graph submission.roots (some source) = .ok mid ∧
      db' = mid.setQueue (fun q => q.runId == runId && q.phase.isWaiting &&
        (mid.runs.any fun r => r.id == runId && decide (r.status = .pending)) &&
        mid.submissions.any fun s => s.runId == runId && decide (s.planningState = .ready))
        .queued := by
  rw [resolveWaiting] at h
  split_ifs at h with hwaits
  · exact Or.inl (Except.ok.inj h).symm
  · split at h
    · rename_i run submission hrun hsub
      split at h
      · cases h
      · rename_i source hsource
        split_ifs at h with hsettled
        · exact Or.inl (Except.ok.inj h).symm
        · obtain ⟨mid, hmid, h⟩ := except_bind_ok h
          exact Or.inr ⟨run, submission, source, mid, by simpa using hwaits, hrun, hsource,
            by simpa using hsettled, hmid, (Except.ok.inj h).symm⟩
    · exact Or.inl (Except.ok.inj h).symm

theorem stop_cases {callerNamespace requestId : String} {instanceId : ℕ}
    (h : db.stop callerNamespace instanceId runId requestId = .ok db') :
    db' = db ∨ ∃ stopIntents stopRequests nextId,
      ((db.cancelAll (db.waitingSuccessors instanceId runId)).2.cancelPending runId).2.nextId ≤
        nextId ∧ db' = { ((db.cancelAll (db.waitingSuccessors instanceId runId)).2.cancelPending runId).2 with
        stopIntents := stopIntents, stopRequests := stopRequests, nextId := nextId } := by
  simp only [stop] at h
  split_ifs at h
  · exact Or.inl (Except.ok.inj h).symm
  · obtain rfl := Except.ok.inj h
    exact Or.inr ⟨_, _, _, le_rfl, rfl⟩
  · obtain rfl := Except.ok.inj h
    exact Or.inr ⟨_, _, _, Nat.le_succ _, rfl⟩

end Inversion

end Db

end VibeKanban.Runtime
