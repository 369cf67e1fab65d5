import VibeKanban.Lib.JsonText
import VibeKanban.Lib.Table
import VibeKanban.Workflow.Rework

/-! The tables of the workflow runtime and the queries that read them. -/
namespace VibeKanban.Runtime
open Lib Workflow

inductive WorkflowRunStatus where
  | pending | running | awaitingHuman | awaitingArena | cancelling | succeeded | failed | canceled
  deriving DecidableEq, Repr

inductive QueuePhase where
  | queued | waitingForSource | stoppingSource | starting | active | finished
  deriving DecidableEq, Repr

inductive PlanningState where
  | pending | ready | failed
  deriving DecidableEq, Repr

def WorkflowRunStatus.isTerminal : WorkflowRunStatus → Bool
  | .succeeded | .failed | .canceled => true
  | _ => false

/-- The statuses a drive loop does not work on. -/
def WorkflowRunStatus.isStopped : WorkflowRunStatus → Bool
  | .cancelling | .canceled | .failed | .succeeded => true
  | _ => false

/-- The statuses under which an interaction may be answered. -/
def WorkflowRunStatus.isOpen : WorkflowRunStatus → Bool
  | .running | .awaitingHuman | .awaitingArena => true
  | _ => false

def nodeTerminal : NodeExecutionStatus → Bool
  | .succeeded | .failed | .cancelled | .skipped => true
  | _ => false

def nodeActive : NodeExecutionStatus → Bool
  | .running | .cancelling | .awaitingHuman | .awaitingArena => true
  | _ => false

/-- Not yet handed to the dispatcher. -/
def QueuePhase.isUnclaimed : QueuePhase → Bool
  | .queued | .waitingForSource | .stoppingSource => true
  | _ => false

def QueuePhase.isWaiting : QueuePhase → Bool
  | .waitingForSource | .stoppingSource => true
  | _ => false

def QueuePhase.holdsSlot : QueuePhase → Bool
  | .starting | .active => true
  | _ => false

/-- `projectId` is the project of the run's issue, `graph` the frozen snapshot. -/
structure RunRow where
  id : ℕ
  attemptId : Option ℕ
  projectId : ℕ
  graph : WorkflowGraph
  inputText : String
  status : WorkflowRunStatus
  outputText : Option String
  errorText : Option String
  orchestrationRunId : Option ℕ

structure NodeExecutionRow where
  id : ℕ
  runId : ℕ
  nodeId : String
  nodeType : WorkflowNodeKind
  iteration : ℤ
  status : NodeExecutionStatus
  outputText : Option String
  errorText : Option String
  arenaGroupId : Option ℕ
  deriving DecidableEq, Repr

structure QueueRow where
  sequence : ℕ
  runId : ℕ
  projectId : ℕ
  phase : QueuePhase
  deriving DecidableEq, Repr

structure SlotRow where
  projectId : ℕ
  runId : ℕ
  deriving DecidableEq, Repr

/-- `roots` is the requested scope, `none` for every node. -/
structure SubmissionRow where
  runId : ℕ
  instanceId : ℕ
  callerNamespace : String
  requestId : String
  requestHash : String
  roots : Option (List String)
  sourceRunId : Option ℕ
  planningState : PlanningState
  affectedNodes : Option (List String)
  deriving DecidableEq, Repr

structure AttemptRow where
  id : ℕ
  issueId : ℕ
  graph : WorkflowGraph
  latestRunId : Option ℕ

/-- The recorded answer of an interaction. -/
inductive InteractionResponse where
  | approve (outputText : String)
  | branch (outputText : String) (skipped : List String)
  | reject (error : String)
  | arenaWinner (candidateId : ℕ)
  deriving DecidableEq, Repr

structure ResponseRow where
  nodeExecutionId : ℕ
  response : InteractionResponse
  deriving DecidableEq, Repr

structure ReuseRow where
  runId : ℕ
  nodeId : String
  iteration : ℤ
  sourceNodeExecutionId : ℕ
  deriving DecidableEq, Repr

structure DispositionRow where
  runId : ℕ
  nodeId : String
  deriving DecidableEq, Repr

structure StopIntentRow where
  id : ℕ
  callerNamespace : String
  requestId : String
  runId : ℕ
  successorRunId : Option ℕ
  delivered : Bool
  deriving DecidableEq, Repr

/-- The recorded scope of a stop request. -/
structure StopRequestRow where
  callerNamespace : String
  runId : ℕ
  requestId : String
  affectedRunIds : List ℕ
  deriving DecidableEq, Repr

inductive AgentRunStatus where
  | pending | starting | running | awaitingInput | awaitingApproval | cancelling
  | succeeded | failed | cancelled | crashed | auditFailed
  deriving DecidableEq, Repr

def AgentRunStatus.isTerminal : AgentRunStatus → Bool
  | .succeeded | .failed | .cancelled | .crashed | .auditFailed => true
  | _ => false

/-- `arena` holds the arena group of an Arena run. -/
structure OrchestrationRunRow where
  id : ℕ
  arena : Option ℕ
  finished : Bool
  deriving DecidableEq, Repr

structure AgentRunLinkRow where
  orchestrationRunId : ℕ
  nodeKey : String
  iteration : ℤ
  agentRunId : ℕ
  deriving DecidableEq, Repr

structure AgentRunStateRow where
  agentRunId : ℕ
  status : AgentRunStatus
  outputText : Option String
  errorText : Option String
  deriving DecidableEq, Repr

structure AgentRunAttemptRow where
  id : ℕ
  agentRunId : ℕ
  deriving DecidableEq, Repr

structure ProcessRow where
  runAttemptId : ℕ
  exited : Bool
  deriving DecidableEq, Repr

structure OutboxRow where
  orchestrationRunId : ℕ
  delivered : Bool
  deriving DecidableEq, Repr

/-- The tables of the orchestration service, which the runtime only reads. -/
structure Orchestration where
  runs : List OrchestrationRunRow
  links : List AgentRunLinkRow
  agentRuns : List AgentRunStateRow
  attempts : List AgentRunAttemptRow
  processes : List ProcessRow
  outbox : List OutboxRow
  deriving DecidableEq, Repr

/-- The database, with the dispatcher's set of runs in flight. -/
structure Db where
  runs : List RunRow
  nodeExecutions : List NodeExecutionRow
  queue : List QueueRow
  slots : List SlotRow
  submissions : List SubmissionRow
  attempts : List AttemptRow
  responses : List ResponseRow
  reuse : List ReuseRow
  dispositions : List DispositionRow
  stopIntents : List StopIntentRow
  stopRequests : List StopRequestRow
  orchestration : Orchestration
  inFlight : List ℕ
  nextId : ℕ
  nextSequence : ℕ

namespace Db

/-- A database without rows. -/
def empty : Db := ⟨[], [], [], [], [], [], [], [], [], [], [], ⟨[], [], [], [], [], []⟩, [], 0, 0⟩

def run? (db : Db) (runId : ℕ) : Option RunRow := db.runs.find? fun r => r.id = runId

def runStatus? (db : Db) (runId : ℕ) : Option WorkflowRunStatus := (db.run? runId).map (·.status)

def nodeStatus? (db : Db) (executionId : ℕ) : Option NodeExecutionStatus :=
  (db.nodeExecutions.find? fun n => n.id = executionId).map (·.status)

def queue? (db : Db) (runId : ℕ) : Option QueueRow := db.queue.find? fun q => q.runId = runId

def ownExecutions (db : Db) (runId : ℕ) : List NodeExecutionRow :=
  db.nodeExecutions.filter fun n => n.runId == runId

end Db

/-- A row of the effective view: the execution itself or the one it reuses. -/
structure EffectiveExecution where
  sourceNodeExecutionId : ℕ
  snapshot : NodeExecutionSnapshot
  deriving DecidableEq, Repr

def NodeExecutionRow.snapshot (n : NodeExecutionRow) : NodeExecutionSnapshot :=
  ⟨n.nodeId, n.iteration, n.status, n.outputText, n.errorText⟩

namespace Db

def reusedExecutions (db : Db) (runId : ℕ) : List EffectiveExecution :=
  (db.reuse.filter fun r => r.runId == runId).flatMap fun r =>
    (db.nodeExecutions.filter fun n => n.id == r.sourceNodeExecutionId).map fun n =>
      ⟨n.id, { n.snapshot with nodeId := r.nodeId, iteration := r.iteration }⟩

def effectiveExecutions (db : Db) (runId : ℕ) : List EffectiveExecution :=
  (db.ownExecutions runId).map (fun n => ⟨n.id, n.snapshot⟩) ++ db.reusedExecutions runId

def dispositionSnapshots (db : Db) (runId : ℕ) : List NodeExecutionSnapshot :=
  (db.dispositions.filter fun d => d.runId == runId).map fun d =>
    ⟨d.nodeId, 0, .skipped, none, none⟩

/-- `ORDER BY node_id, iteration`. -/
def snapshotOrder (a b : NodeExecutionSnapshot) : Prop :=
  a.nodeId < b.nodeId ∨ a.nodeId = b.nodeId ∧ a.iteration ≤ b.iteration

instance : DecidableRel snapshotOrder := fun _ _ => inferInstanceAs (Decidable (_ ∨ _))

def loadRunSnapshot (db : Db) (runId : ℕ) : RunSnapshot :=
  ⟨runId, ((db.effectiveExecutions runId).map (·.snapshot) ++
    db.dispositionSnapshots runId).insertionSort snapshotOrder⟩

def existingExecutionCount (db : Db) (runId : ℕ) (nodeId : String) : ℕ :=
  (db.effectiveExecutions runId).countP fun e =>
    e.snapshot.nodeId == nodeId && decide (e.snapshot.status ≠ .skipped)

def maxExecutionIteration (db : Db) (runId : ℕ) (nodeId : String) : Option ℤ :=
  (((db.effectiveExecutions runId).filter fun e => e.snapshot.nodeId == nodeId).map
    fun e => e.snapshot.iteration).max?

def submittedAffectedNodes (db : Db) (runId : ℕ) : Option (List String) :=
  (db.submissions.find? fun s => s.runId = runId).bind (·.affectedNodes)

/-- The runs whose children decide whether a run has settled: its own orchestration run and
those of its Arena groups. -/
def ownedOrchestrationRuns (db : Db) (runId : ℕ) : List ℕ :=
  runId :: (db.orchestration.runs.filter fun o =>
    (db.ownExecutions runId).any fun n => n.arenaGroupId.isSome && n.arenaGroupId == o.arena).map
      (·.id)

def childrenSettled (db : Db) (runId : ℕ) : Bool :=
  let owned := db.ownedOrchestrationRuns runId
  let links := db.orchestration.links.filter fun l => owned.contains l.orchestrationRunId
  links.all (fun l => db.orchestration.agentRuns.any fun s =>
    s.agentRunId == l.agentRunId && s.status.isTerminal) &&
  links.all (fun l => (db.orchestration.attempts.filter fun a => a.agentRunId == l.agentRunId).all
    fun a => db.orchestration.processes.any fun p => p.runAttemptId == a.id && p.exited) &&
  (db.orchestration.outbox.filter fun o => owned.contains o.orchestrationRunId).all (·.delivered)

/-- A settled run: terminal, without a slot, an unresolved node or an unsettled child. -/
def sourceBoundarySettled (db : Db) (runId : ℕ) : Bool :=
  (db.runs.any fun r => r.id == runId && r.status.isTerminal) &&
  !(db.slots.any fun s => s.runId == runId) &&
  !((db.ownExecutions runId).any fun n => nodeActive n.status) &&
  db.childrenSettled runId

end Db

/-- Identities in their stored text form. -/
def executionIdText (id : ℕ) : String := String.ofList (JsonText.printNat id)

def parseExecutionId (text : String) : Option ℕ :=
  if text.toList ≠ [] ∧ text.toList.all JsonText.isDigit then
    some (JsonText.digitsValue text.toList)
  else none

theorem parseExecutionId_text (id : ℕ) : parseExecutionId (executionIdText id) = some id := by
  have hall : (JsonText.printNat id).all JsonText.isDigit = true := by
    rw [List.all_eq_true]
    exact JsonText.printNat_digits id
  simp only [parseExecutionId, executionIdText, String.toList_ofList, JsonText.printNat_ne_nil,
    hall, ne_eq, not_false_eq_true, and_self, if_true, JsonText.digitsValue_printNat]

/-- The planner's records of a source run: its effective executions and its dispositions. -/
def Db.sourceExecutions (db : Db) (runId : ℕ) : List ReworkSourceExecution :=
  (db.effectiveExecutions runId).map (fun e =>
    ⟨executionIdText e.sourceNodeExecutionId, e.snapshot.nodeId, e.snapshot.iteration,
      match e.snapshot.status with
      | .succeeded => .succeeded
      | .skipped => .skipped
      | .failed => .failed
      | .cancelled => .cancelled
      | _ => .pending,
      e.snapshot.outputText⟩) ++
  (db.dispositionSnapshots runId).map fun d => ⟨"", d.nodeId, 0, .skipped, none⟩

end VibeKanban.Runtime
