import VibeKanban.Lib.Interleaving
import VibeKanban.Router.ConditionRouter
import VibeKanban.Runtime.Acceptance
import VibeKanban.Workflow.Handlers

/-! The atomic statements of the runtime: reads, writing transactions and calls of its ports. -/
namespace VibeKanban.Runtime
open Lib Workflow Router

/-- The text formats and the transformation the runtime is built on. -/
structure Config where
  router : RouterCodec
  applyTransform : WorkflowNode → String → Except String String

/-- The printed form of JSON, no decisions and the identity as transformation. -/
def Config.plain : Config := ⟨⟨JsonText.codec, fun _ => .error "no decision"⟩, fun _ text => .ok text⟩

inductive AgentNodeExecution where
  | completed (agentRunId : ℕ) (outputText : String)
  | started (agentRunId : ℕ) (outputText : Option String)
  deriving DecidableEq, Repr

structure WorktreeSnapshot where
  summary : String
  fingerprint : String
  deriving DecidableEq, Repr

structure AgentRunState where
  status : AgentRunStatus
  terminalOutput : Option String
  lastError : Option String
  deriving DecidableEq, Repr

/-- Where a write of a node row comes from. -/
inductive NodeWrite where
  | markRunning | pureOutcome | update
  deriving DecidableEq, Repr

/-- Calls that leave the database of the runtime: the agent executor, the Arena, the orchestration
service and the worktree. -/
inductive Port where
  | runAgent (runId : ℕ) (nodeId : String) (iteration : ℤ)
  | createArena (runId : ℕ) (nodeId : String) (iteration : ℤ)
  | applyWinner (runId : ℕ) (nodeId : String) (arenaGroupId candidateId : ℕ)
  | canonicalNodeIdentity (runId : ℕ) (nodeId : String) (iteration : ℤ)
  | routerSession (runId : ℕ)
  | worktreeSnapshot (runId : ℕ)
  | startOrchestration (runId : ℕ)
  | linkIdentities (runId : ℕ)
  | cancelOrchestration (orchestrationRunId : ℕ)
  | cancelSessions (runId : ℕ)
  | reconcileOrchestration (orchestrationRunId : ℕ)
  | queryAgentRun (agentRunId : ℕ)
  deriving DecidableEq, Repr

def Port.Ans : Port → Type
  | runAgent .. => Except String AgentNodeExecution
  | createArena .. => Except String ℕ
  | applyWinner .. => Except String String
  | worktreeSnapshot .. => Except String (Option WorktreeSnapshot)
  | queryAgentRun .. => Except String (Option AgentRunState)
  | _ => Except String Unit

inductive Stmt : Type 1 where
  | read (β : Type) (f : Db → β)
  | port (call : Port)
  | updateNodeExecution (origin : NodeWrite) (runId : ℕ) (nodeId : String) (iteration : ℤ)
    (update : NodeExecutionUpdate)
  | updateRunStatus (runId : ℕ) (status : WorkflowRunStatus) (outputText errorText : Option String)
  | skipPendingExecution (executionId : ℕ)
  | setPendingNodes (runId : ℕ)
  | insertNodeExecution (runId : ℕ) (node : WorkflowNode) (iteration : ℤ)
  | claimInteraction (runId : ℕ) (nodeId : String) (expected : Option ℕ) (awaited : Awaited)
    (response : InteractionResponse)
  | cancelSettledArenas (runId : ℕ)
  | failInterruptedArenas (runId : ℕ)
  | startRun (runId : ℕ)
  | resetRunPending (runId : ℕ)
  | setOrchestrationRun (runId : ℕ)
  | repairOrchestrationRun (runId : ℕ)
  | claimNext
  | cancelQueued (runId : ℕ)
  | releaseTerminal (runId : ℕ)
  | setQueueActive (runId : ℕ)
  | resumeQueueActive (runId : ℕ)
  | setQueueStarting (runId : ℕ)
  | enterFlight (runId : ℕ)
  | leaveFlight (runId : ℕ)
  | initializeRun (runId : ℕ) (attemptId : Option ℕ) (projectId : ℕ) (graph : WorkflowGraph)
    (inputText : String) (queueProjectId : Option ℕ)
  | submit (scope : SubmissionScope) (submission : WorkflowSubmission) (runId : ℕ)
  | resolveWaiting (runId : ℕ)
  | stop (callerNamespace : String) (instanceId runId : ℕ) (requestId : String)
  | deliverIntent (intentId : ℕ)
  | syncAttempt (runId : ℕ)
  | never

/-- The answer of a statement. -/
def Stmt.Ans : Stmt → Type
  | read β _ => β
  | port call => call.Ans
  | insertNodeExecution .. | initializeRun .. | resolveWaiting .. | stop .. => Except String Unit
  | claimInteraction .. => Option (ℕ × ℤ)
  | failInterruptedArenas .. => ℕ
  | startRun .. | cancelQueued .. | releaseTerminal .. | enterFlight .. => Bool
  | claimNext => Option ℕ
  | submit .. => Except String ℕ
  | never => Empty
  | _ => Unit

/-- A transaction that fails leaves the database as it was. -/
def commit {α : Type} (db : Db) (value : α) : Except String Db → Except String α × Db
  | .ok db' => (.ok value, db')
  | .error e => (.error e, db)

def commitWith {α : Type} (db : Db) : Except String (α × Db) → Except String α × Db
  | .ok (a, db') => (.ok a, db')
  | .error e => (.error e, db)

/-- The new database of a transaction. -/
theorem run_snd {α : Type} {db' : Db} {a : α} {r : α × Db} (h : some r = some (a, db')) :
    r.2 = db' := by
  obtain rfl := Option.some.inj h
  rfl

theorem commit_ok {α : Type} {db db' : Db} {value : α} {result : Except String Db}
    {a : Except String α} (h : some (commit db value result) = some (a, db')) :
    result = .ok db' ∨ db' = db := by
  cases result with
  | ok y => exact Or.inl (congrArg Except.ok (run_snd h))
  | error e => exact Or.inr (run_snd h).symm

theorem commitWith_ok {α : Type} {db db' : Db} {result : Except String (α × Db)}
    {a : Except String α} (h : some (commitWith db result) = some (a, db')) :
    (∃ value, result = .ok (value, db')) ∨ db' = db := by
  cases result with
  | ok r =>
    obtain ⟨value, y⟩ := r
    obtain rfl : y = db' := run_snd h
    exact Or.inl ⟨value, rfl⟩
  | error e => exact Or.inr (run_snd h).symm

/-- The answer and the new database of a transaction; `none` for a call of a port. -/
def Stmt.run (fromStr : String → Option Json) (db : Db) : (s : Stmt) → Option (s.Ans × Db)
  | read _ f => some (f db, db)
  | port _ => none
  | updateNodeExecution _ runId nodeId iteration update =>
    some ((), db.updateNodeExecution runId nodeId iteration update)
  | updateRunStatus runId status outputText errorText =>
    some ((), db.updateRunStatus runId status outputText errorText)
  | skipPendingExecution executionId => some ((), db.skipPendingExecution executionId)
  | setPendingNodes runId => some ((), db.setPendingNodes runId .cancelled)
  | insertNodeExecution runId node iteration =>
    some (commit db () (db.insertNodeExecution runId node iteration))
  | claimInteraction runId nodeId expected awaited response =>
    some (db.claimInteraction runId nodeId expected awaited response)
  | cancelSettledArenas runId => some ((), db.cancelSettledArenas runId)
  | failInterruptedArenas runId => some (db.failInterruptedArenas runId)
  | startRun runId => some (db.startRun runId)
  | resetRunPending runId => some ((), db.resetRunPending runId)
  | setOrchestrationRun runId => some ((), db.setOrchestrationRun runId)
  | repairOrchestrationRun runId => some ((), db.repairOrchestrationRun runId)
  | claimNext => some db.claimNext
  | cancelQueued runId => some (db.cancelQueued runId)
  | releaseTerminal runId => some (db.releaseTerminal runId)
  | setQueueActive runId => some ((), db.setQueueActive runId)
  | resumeQueueActive runId => some ((), db.resumeQueueActive runId)
  | setQueueStarting runId => some ((), db.setQueueStarting runId)
  | enterFlight runId => some (db.enterFlight runId)
  | leaveFlight runId => some ((), db.leaveFlight runId)
  | initializeRun runId attemptId projectId graph inputText queueProjectId =>
    some (commit db () (db.initializeRun runId attemptId projectId graph inputText queueProjectId
      .queued none))
  | submit scope submission runId => some (commitWith db (db.submit fromStr scope submission runId))
  | resolveWaiting runId => some (commit db () (db.resolveWaiting fromStr runId))
  | stop callerNamespace instanceId runId requestId =>
    some (commit db () (db.stop callerNamespace instanceId runId requestId))
  | deliverIntent intentId => some ((), db.deliverIntent intentId)
  | syncAttempt runId => some ((), db.syncAttempt runId)
  | never => none

/-- The orchestration tables move outside the runtime's control. -/
def OrchestrationMoves (db db' : Db) : Prop := ∃ o, db' = { db with orchestration := o }

/-- What a port may change: the orchestration tables, and a new Arena is bound to its execution. -/
def Port.Moves : Port → Db → Db → Prop
  | createArena runId nodeId iteration, db, db' => OrchestrationMoves db db' ∨
    ∃ group, OrchestrationMoves (db.bindArena runId nodeId iteration group) db'
  | _, db, db' => OrchestrationMoves db db'

/-- One statement of a program: a transaction of the runtime, or a port that answers anything. -/
def Stmt.Exec (fromStr : String → Option Json) : (s : Stmt) → Db → s.Ans → Db → Prop
  | port call, db, _, db' => call.Moves db db'
  | s, db, a, db' => s.run fromStr db = some (a, db')

/-- A program of the runtime; failures carry their message. -/
abbrev Program (α : Type) : Type 1 := Prog Stmt Stmt.Ans String α

namespace Program

def read {β : Type} (f : Db → β) : Program β := Prog.stmt (Stmt.read β f)

def exec (s : Stmt) : Program s.Ans := Prog.stmt s

/-- A failure of the answer ends the program. -/
def require {α : Type} (p : Program (Except String α)) : Program α := do
  let a ← p
  Prog.ofExcept a

end Program

end VibeKanban.Runtime
