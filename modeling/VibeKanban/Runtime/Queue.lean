import VibeKanban.Runtime.Writes

/-! The project queue: the slots, the phases and the statements that move them. -/
namespace VibeKanban.Runtime
open Lib Workflow

namespace Db

/-- The oldest of the given entries. -/
def oldest : List QueueRow → Option QueueRow
  | [] => none
  | q :: rest =>
    match oldest rest with
    | none => some q
    | some m => if m.sequence < q.sequence then some m else some q

/-- What keeps a queued entry from taking its project's slot: a slot, an unfinished earlier entry
or another run of the project that has started. -/
def blocked (db : Db) (q : QueueRow) : Bool :=
  (db.slots.any fun s => s.projectId == q.projectId) ||
  (db.queue.any fun e => e.projectId == q.projectId && decide (e.sequence < q.sequence) &&
    decide (e.phase ≠ .finished)) ||
  (db.runs.any fun r => r.projectId == q.projectId && r.id != q.runId &&
    (r.status.isOpen || decide (r.status = .cancelling)))

def claimable (db : Db) (q : QueueRow) : Bool :=
  decide (q.phase = .queued) &&
    (db.runs.any fun r => r.id == q.runId && decide (r.status = .pending)) && !db.blocked q

/-- One transaction: the oldest claimable entry takes the slot of its project. -/
def claimNext (db : Db) : Option ℕ × Db :=
  match oldest (db.queue.filter db.claimable) with
  | none => (none, db)
  | some q =>
    (some q.runId, ({ db with slots := db.slots ++ [⟨q.projectId, q.runId⟩] } : Db).setQueue
      (fun e => e.runId == q.runId && decide (e.phase = .queued)) .starting)

def pendingUnclaimed (db : Db) (runId : ℕ) (q : QueueRow) : Bool :=
  q.runId == runId && q.phase.isUnclaimed &&
    db.runs.any fun r => r.id == runId && decide (r.status = .pending)

/-- One transaction: an unclaimed entry is finished and its pending run canceled. -/
def cancelQueued (db : Db) (runId : ℕ) : Bool × Db :=
  if db.queue.any (db.pendingUnclaimed runId) then
    (true, ((db.setQueue (db.pendingUnclaimed runId) .finished).setRuns
      (fun r => r.id == runId && decide (r.status = .pending))
      (fun r => { r with status := .canceled })).setPendingNodes runId .cancelled)
  else (false, db)

/-- A slot is given back only by a terminal run without unresolved nodes or unsettled children. -/
def releasable (db : Db) (runId : ℕ) : Bool :=
  (db.runs.any fun r => r.id == runId && r.status.isTerminal) && db.childrenSettled runId &&
    !((db.ownExecutions runId).any fun n => nodeActive n.status)

def releaseTerminal (db : Db) (runId : ℕ) : Bool × Db :=
  if (db.slots.any fun s => s.runId == runId) && db.releasable runId then
    (true, ({ db with slots := db.slots.filter fun s => s.runId != runId } : Db).setQueue
      (fun q => q.runId == runId) .finished)
  else (false, db)

/-- The start of an accepted run marks its entry whatever its phase is. -/
def setQueueActive (db : Db) (runId : ℕ) : Db := db.setQueue (fun q => q.runId == runId) .active

/-- Recovery marks its entry only while it is starting and its run is under way. -/
def resumeQueueActive (db : Db) (runId : ℕ) : Db :=
  db.setQueue (fun q => q.runId == runId && decide (q.phase = .starting) &&
    db.runs.any fun r => r.id == runId && (r.status.isOpen || decide (r.status = .cancelling)))
    .active

def setQueueStarting (db : Db) (runId : ℕ) : Db :=
  db.setQueue (fun q => q.runId == runId && decide (q.phase = .active)) .starting

/-- The runs a recovery schedules; active entries only on the first pass. -/
def recoverable (db : Db) (includeActive : Bool) : List ℕ :=
  (db.queue.filter fun q =>
    (decide (q.phase = .starting) || includeActive && decide (q.phase = .active)) &&
      db.runs.any fun r => r.id == q.runId && (r.status.isOpen || decide (r.status = .pending))).map
    (·.runId)

/-- Enter the dispatcher's set of runs in flight, unless the run is already there. -/
def enterFlight (db : Db) (runId : ℕ) : Bool × Db :=
  if db.inFlight.contains runId then (false, db)
  else (true, { db with inFlight := runId :: db.inFlight })

def leaveFlight (db : Db) (runId : ℕ) : Db :=
  { db with inFlight := db.inFlight.filter (· != runId) }

end Db

end VibeKanban.Runtime
