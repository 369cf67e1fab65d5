import VibeKanban.Runtime.Db
import VibeKanban.Workflow.Validation

/-! The writing statements and transactions of the runtime as functions on the database. -/
namespace VibeKanban.Runtime
open Lib Workflow

/-- An update never takes a row back to pending. -/
structure NodeExecutionUpdate where
  status : NodeExecutionStatus
  outputText : Option String
  arenaGroupId : Option ℕ
  errorText : Option String
  started : status ≠ .pending
  deriving DecidableEq

/-- The pending row of a target that a skip takes: the lowest iteration. -/
def lowestIteration : List NodeExecutionRow → Option NodeExecutionRow
  | [] => none
  | n :: rest =>
    match lowestIteration rest with
    | none => some n
    | some m => if m.iteration < n.iteration then some m else some n

def highestIteration : List NodeExecutionRow → Option NodeExecutionRow
  | [] => none
  | n :: rest =>
    match highestIteration rest with
    | none => some n
    | some m => if n.iteration < m.iteration then some m else some n

/-- What an interaction waits for. -/
inductive Awaited where
  | human | arena
  deriving DecidableEq, Repr

def Awaited.status : Awaited → NodeExecutionStatus
  | human => .awaitingHuman
  | arena => .awaitingArena

namespace Db

def setNodes (db : Db) (p : NodeExecutionRow → Bool) (f : NodeExecutionRow → NodeExecutionRow) :
    Db := { db with nodeExecutions := updateWhere p f db.nodeExecutions }

def setRuns (db : Db) (p : RunRow → Bool) (f : RunRow → RunRow) : Db :=
  { db with runs := updateWhere p f db.runs }

def setQueue (db : Db) (p : QueueRow → Bool) (phase : QueuePhase) : Db :=
  { db with queue := updateWhere p (fun q => { q with phase := phase }) db.queue }

/-- A terminal row is never written; absent texts keep the stored ones. -/
def updateNodeExecution (db : Db) (runId : ℕ) (nodeId : String) (iteration : ℤ)
    (update : NodeExecutionUpdate) : Db :=
  db.setNodes
    (fun n => n.runId == runId && n.nodeId == nodeId && n.iteration == iteration &&
      !nodeTerminal n.status)
    (fun n => { n with
      status := update.status
      outputText := update.outputText.or n.outputText
      arenaGroupId := update.arenaGroupId.or n.arenaGroupId
      errorText := update.errorText })

/-- A terminal run is never written, and a cancelling one only becomes cancelling or canceled. -/
def updateRunStatus (db : Db) (runId : ℕ) (status : WorkflowRunStatus)
    (outputText errorText : Option String) : Db :=
  db.setRuns
    (fun r => r.id == runId && !r.status.isTerminal &&
      (decide (r.status ≠ .cancelling) || decide (status = .cancelling ∨ status = .canceled)))
    (fun r => { r with status := status, outputText := outputText, errorText := errorText })

def skipPendingExecution (db : Db) (executionId : ℕ) : Db :=
  db.setNodes (fun n => n.id == executionId && decide (n.status = .pending))
    (fun n => { n with status := .skipped })

def pendingExecutions (db : Db) (runId : ℕ) : List NodeExecutionRow :=
  db.nodeExecutions.filter fun n => n.runId == runId && decide (n.status = .pending)

def pendingTarget (db : Db) (runId : ℕ) (nodeId : String) : Option NodeExecutionRow :=
  lowestIteration ((db.pendingExecutions runId).filter fun n => n.nodeId == nodeId)

def skipTarget (db : Db) (runId : ℕ) (nodeId : String) : Db :=
  match db.pendingTarget runId nodeId with
  | some n => db.skipPendingExecution n.id
  | none => db

def setPendingNodes (db : Db) (runId : ℕ) (status : NodeExecutionStatus) : Db :=
  db.setNodes (fun n => n.runId == runId && decide (n.status = .pending))
    (fun n => { n with status := status })

/-- Insert a pending execution; the key of run, node and iteration is unique. -/
def materializeNodeExecution (db : Db) (runId : ℕ) (node : WorkflowNode) (iteration : ℤ) :
    Except String Db :=
  if db.nodeExecutions.any fun n =>
      n.runId == runId && n.nodeId == node.id && n.iteration == iteration then
    .error "UNIQUE constraint failed: node_executions"
  else .ok { db with
    nodeExecutions := db.nodeExecutions ++
      [⟨db.nextId, runId, node.id, node.kind, iteration, .pending, none, none, none⟩]
    nextId := db.nextId + 1 }

def insertNodeExecution (db : Db) (runId : ℕ) (node : WorkflowNode) (iteration : ℤ) :
    Except String Db :=
  if (db.run? runId).isSome then db.materializeNodeExecution runId node iteration
  else .error "Workflow run not found"

/-- The row a claim may consume: the awaited status, the named execution when one is given, an
open run, and the highest iteration. -/
def claimCandidate (db : Db) (runId : ℕ) (nodeId : String) (expected : Option ℕ)
    (awaited : Awaited) : Option NodeExecutionRow :=
  if db.runs.any fun r => r.id == runId && r.status.isOpen then
    highestIteration (db.nodeExecutions.filter fun n =>
      n.runId == runId && n.nodeId == nodeId && decide (n.status = awaited.status) &&
        (match expected with
          | none => true
          | some id => n.id == id))
  else none

def setNode (db : Db) (executionId : ℕ) (status : NodeExecutionStatus)
    (outputText errorText : Option String) : Db :=
  db.setNodes (fun n => n.id == executionId)
    (fun n => { n with status := status, outputText := outputText, errorText := errorText })

def setRun (db : Db) (runId : ℕ) (status : WorkflowRunStatus) (errorText : Option String) : Db :=
  db.setRuns (fun r => r.id == runId)
    (fun r => { r with status := status, errorText := errorText })

/-- The transition that is committed together with an answer. An Arena winner has none: it is
applied to the workspace first. -/
def applyResponse (db : Db) (runId executionId : ℕ) : InteractionResponse → Db
  | .arenaWinner _ => db
  | .approve output => (db.setNode executionId .succeeded (some output) none).setRun runId .running none
  | .branch output skipped =>
    (skipped.foldl (fun db target => db.skipTarget runId target)
      (db.setNode executionId .succeeded (some output) none)).setRun runId .running none
  | .reject error =>
    ((db.setNode executionId .failed none (some error)).setPendingNodes runId .skipped).setRun
      runId .failed (some error)

def recordResponse (db : Db) (executionId : ℕ) (response : InteractionResponse) : Db :=
  { db with responses := db.responses ++ [⟨executionId, response⟩] }

/-- One transaction: record the answer unless the execution already has one, and apply it. -/
def claimInteraction (db : Db) (runId : ℕ) (nodeId : String) (expected : Option ℕ)
    (awaited : Awaited) (response : InteractionResponse) : Option (ℕ × ℤ) × Db :=
  match db.claimCandidate runId nodeId expected awaited with
  | none => (none, db)
  | some n =>
    if db.responses.any fun r => r.nodeExecutionId == n.id then (none, db)
    else (some (n.id, n.iteration), (db.recordResponse n.id response).applyResponse runId n.id response)

/-- A new Arena is bound to its execution once. -/
def bindArena (db : Db) (runId : ℕ) (nodeId : String) (iteration : ℤ) (arenaGroupId : ℕ) : Db :=
  db.setNodes
    (fun n => n.runId == runId && n.nodeId == nodeId && n.iteration == iteration &&
      n.arenaGroupId.isNone)
    (fun n => { n with arenaGroupId := some arenaGroupId })

/-- A cancelling Arena execution whose candidates have all ended is cancelled. -/
def cancelSettledArenas (db : Db) (runId : ℕ) : Db :=
  db.setNodes
    (fun n => n.runId == runId && decide (n.status = .cancelling) && n.arenaGroupId.isSome &&
      (db.orchestration.runs.filter fun o => n.arenaGroupId == o.arena).all fun o =>
        (db.orchestration.links.filter fun l => l.orchestrationRunId == o.id).all fun l =>
          db.orchestration.agentRuns.any fun s =>
            s.agentRunId == l.agentRunId && s.status.isTerminal)
    (fun n => { n with status := .cancelled })

/-- Only a pending run that holds a slot starts. -/
def startRun (db : Db) (runId : ℕ) : Bool × Db :=
  let starts := fun r : RunRow => r.id == runId && decide (r.status = .pending) &&
    db.slots.any fun s => s.runId == runId
  (db.runs.any starts, db.setRuns starts fun r => { r with status := .running })

def resetRunPending (db : Db) (runId : ℕ) : Db :=
  db.setRuns (fun r => r.id == runId && decide (r.status = .running))
    fun r => { r with status := .pending }

def setOrchestrationRun (db : Db) (runId : ℕ) : Db :=
  db.setRuns (fun r => r.id == runId) fun r => { r with orchestrationRunId := some runId }

def repairOrchestrationRun (db : Db) (runId : ℕ) : Db :=
  db.setRuns (fun r => r.id == runId && r.orchestrationRunId.isNone)
    fun r => { r with orchestrationRunId := some runId }

/-- Winner applications that a restart interrupted. -/
def interruptedArena (db : Db) (runId : ℕ) (n : NodeExecutionRow) : Bool :=
  n.runId == runId && decide (n.status = .awaitingArena) && db.responses.any fun r =>
    r.nodeExecutionId == n.id && (match r.response with | .arenaWinner _ => true | _ => false)

def failInterruptedArenas (db : Db) (runId : ℕ) : ℕ × Db :=
  (db.nodeExecutions.countP (db.interruptedArena runId),
    db.setNodes (db.interruptedArena runId) fun n => { n with
      status := .failed
      errorText := some ("Arena winner application was interrupted; " ++
        "inspect the project files before a new run") })

end Db

end VibeKanban.Runtime
