import Mathlib.Data.List.Nodup
import VibeKanban.Lib.Except
import VibeKanban.Lib.Json
import VibeKanban.Lib.Text

/-! The portable project document, its validation and the insertion of a task. -/
namespace VibeKanban.ProjectStore
open Lib

/-- Uuids by their value; the nil uuid is zero. -/
abbrev Uuid := ℕ

abbrev DateTime := ℕ

/-- A double by its bits. -/
abbrev F64 := UInt64

def F64.isFinite (x : F64) : Bool := (x >>> 52) &&& 0x7FF ≠ 0x7FF

def defaultProjectId : Uuid := 3
def formatVersion : ℕ := 1
def i64Max : ℤ := 2 ^ 63 - 1
def i32Max : ℤ := 2 ^ 31 - 1

/-- What a request on the store can be refused with. -/
inductive ApiError where
  | conflict (message : String)
  | badRequest (message : String)
  | payloadTooLarge
  | io
  | database
deriving Repr, DecidableEq

def invalid (message : String) : ApiError := .conflict ("PROJECT_DATA_INVALID: " ++ message)

inductive TaskPriority where
  | urgent | high | medium | low
deriving Repr, DecidableEq

inductive TaskRelationshipType where
  | blocking | related | hasDuplicate
deriving Repr, DecidableEq

structure Project where
  id : Uuid
  organizationId : Uuid
  name : String
  color : String
  sortOrder : ℤ
  createdAt : DateTime
  updatedAt : DateTime
deriving Repr, DecidableEq

structure ProjectStatus where
  id : Uuid
  projectId : Uuid
  name : String
  color : String
  sortOrder : ℤ
  hidden : Bool
  createdAt : DateTime
deriving Repr, DecidableEq

structure Tag where
  id : Uuid
  projectId : Uuid
  name : String
  color : String
deriving Repr, DecidableEq

structure Task where
  id : Uuid
  projectId : Uuid
  issueNumber : ℤ
  simpleId : String
  statusId : Uuid
  title : String
  description : Option String
  priority : Option TaskPriority
  startDate : Option DateTime
  targetDate : Option DateTime
  completedAt : Option DateTime
  sortOrder : F64
  parentIssueId : Option Uuid
  parentIssueSortOrder : Option F64
  extensionMetadata : Json
  creatorUserId : Option Uuid
  createdAt : DateTime
  updatedAt : DateTime
deriving Repr, DecidableEq

structure TaskTag where
  id : Uuid
  issueId : Uuid
  tagId : Uuid
deriving Repr, DecidableEq

structure TaskAssignee where
  id : Uuid
  issueId : Uuid
  userId : Uuid
  assignedAt : DateTime
deriving Repr, DecidableEq

structure TaskFollower where
  id : Uuid
  issueId : Uuid
  userId : Uuid
deriving Repr, DecidableEq

structure TaskRelationship where
  id : Uuid
  issueId : Uuid
  relatedIssueId : Uuid
  relationshipType : TaskRelationshipType
  createdAt : DateTime
deriving Repr, DecidableEq

structure ProjectDocument where
  schemaVersion : ℕ
  revision : ℤ
  project : Project
  statuses : List ProjectStatus
  tags : List Tag
  tasks : List Task
  taskTags : List TaskTag
  taskAssignees : List TaskAssignee
  taskFollowers : List TaskFollower
  taskRelationships : List TaskRelationship
deriving Repr, DecidableEq

/-- Go on only if the condition holds. -/
def ensure (condition : Bool) (error : ApiError) : Except ApiError Unit :=
  if condition then .ok () else .error error

theorem ensure_ok {condition : Bool} {error : ApiError} {u : Unit} :
    ensure condition error = .ok u ↔ condition = true := by
  unfold ensure
  split_ifs with h
  · exact iff_of_true rfl h
  · exact iff_of_false nofun h

namespace ProjectDocument
variable (d : ProjectDocument)

def recordIds : List Uuid :=
  d.statuses.map (·.id) ++ d.tags.map (·.id) ++ d.tasks.map (·.id) ++ d.taskTags.map (·.id)
    ++ d.taskAssignees.map (·.id) ++ d.taskFollowers.map (·.id) ++ d.taskRelationships.map (·.id)

def hasTask (id : Uuid) : Bool := d.tasks.any (·.id = id)
def hasStatus (id : Uuid) : Bool := d.statuses.any (·.id = id)
def hasTag (id : Uuid) : Bool := d.tags.any (·.id = id)

/-- Follow the parents; every step visits another task of the document, so `fuel` beyond the
number of tasks is never used up. -/
def checkParents : ℕ → List Uuid → Option Uuid → Except ApiError Unit
  | _, _, none => .ok ()
  | 0, _, some _ => .error (invalid "Task parent cycle")
  | fuel + 1, visited, some id => do
    ensure (!visited.contains id) (invalid "Task parent cycle")
    match d.tasks.find? (·.id = id) with
    | none => .error (invalid "Unknown task parent")
    | some task => checkParents fuel (id :: visited) task.parentIssueId

def checkTask (numbers : List ℤ) (task : Task) : Except ApiError Unit := do
  ensure (task.projectId = d.project.id && d.hasStatus task.statusId && !isBlank task.title
      && task.sortOrder.isFinite && task.parentIssueSortOrder.all F64.isFinite
      && 1 ≤ task.issueNumber && !numbers.contains task.issueNumber)
    (invalid "Invalid task identity, status, title or ordering")
  d.checkParents (d.tasks.length + 1) [task.id] task.parentIssueId

def checkTasks : List ℤ → List Task → Except ApiError Unit
  | _, [] => .ok ()
  | numbers, task :: rest => do
    d.checkTask numbers task
    checkTasks (task.issueNumber :: numbers) rest

def validate : Except ApiError Unit := do
  ensure (d.schemaVersion = formatVersion && 1 ≤ d.revision)
    (invalid "Unsupported schema version or revision")
  ensure (d.project.id ≠ defaultProjectId && d.project.id ≠ 0 && !isBlank d.project.name)
    (invalid "Invalid portable project identity")
  ensure (!d.recordIds.contains 0 && decide d.recordIds.Nodup)
    (invalid "Duplicate or empty record identity")
  ensure (d.statuses.all (·.projectId = d.project.id) && d.tags.all (·.projectId = d.project.id))
    (invalid "Cross-project metadata")
  d.checkTasks [] d.tasks
  ensure (d.taskTags.all (fun r => d.hasTask r.issueId && d.hasTag r.tagId)
      && d.taskAssignees.all (d.hasTask ·.issueId) && d.taskFollowers.all (d.hasTask ·.issueId)
      && d.taskRelationships.all (fun r =>
        d.hasTask r.issueId && d.hasTask r.relatedIssueId && r.issueId ≠ r.relatedIssueId))
    (invalid "Unknown or cross-project task relationship")

/-- What validation promises about the records and their references. -/
structure Wellformed : Prop where
  ids : d.recordIds.Nodup
  statusProject : ∀ s ∈ d.statuses, s.projectId = d.project.id
  tagProject : ∀ t ∈ d.tags, t.projectId = d.project.id
  taskProject : ∀ t ∈ d.tasks, t.projectId = d.project.id
  taskStatus : ∀ t ∈ d.tasks, t.statusId ∈ d.statuses.map (·.id)
  taskParent : ∀ t ∈ d.tasks, ∀ parent, t.parentIssueId = some parent →
    parent ∈ d.tasks.map (·.id)
  numbers : (d.tasks.map (·.issueNumber)).Nodup
  tagged : ∀ r ∈ d.taskTags, r.issueId ∈ d.tasks.map (·.id) ∧ r.tagId ∈ d.tags.map (·.id)
  assigned : ∀ r ∈ d.taskAssignees, r.issueId ∈ d.tasks.map (·.id)
  followed : ∀ r ∈ d.taskFollowers, r.issueId ∈ d.tasks.map (·.id)
  related : ∀ r ∈ d.taskRelationships,
    r.issueId ∈ d.tasks.map (·.id) ∧ r.relatedIssueId ∈ d.tasks.map (·.id)

variable {d}

theorem hasTask_iff {id : Uuid} : d.hasTask id = true ↔ id ∈ d.tasks.map (·.id) := by
  simp only [hasTask, List.any_eq_true, decide_eq_true_eq, List.mem_map]

theorem hasStatus_iff {id : Uuid} : d.hasStatus id = true ↔ id ∈ d.statuses.map (·.id) := by
  simp only [hasStatus, List.any_eq_true, decide_eq_true_eq, List.mem_map]

theorem hasTag_iff {id : Uuid} : d.hasTag id = true ↔ id ∈ d.tags.map (·.id) := by
  simp only [hasTag, List.any_eq_true, decide_eq_true_eq, List.mem_map]

theorem checkParents_ok {fuel : ℕ} {visited : List Uuid} {id : Uuid}
    (h : d.checkParents fuel visited (some id) = .ok ()) : id ∈ d.tasks.map (·.id) := by
  cases fuel with
  | zero => cases h
  | succ fuel =>
    obtain ⟨_, _, hfind⟩ := except_bind_iff.mp h
    split at hfind
    next => cases hfind
    next task htask =>
      have hfound := List.find?_some htask
      have hid : task.id = id := by simpa using hfound
      exact List.mem_map.mpr ⟨task, List.mem_of_find?_eq_some htask, hid⟩

/-- What one task must satisfy, given the numbers before it. -/
theorem checkTask_ok {numbers : List ℤ} {task : Task} (h : d.checkTask numbers task = .ok ()) :
    task.projectId = d.project.id ∧ task.statusId ∈ d.statuses.map (·.id) ∧
      task.issueNumber ∉ numbers ∧
      ∀ parent, task.parentIssueId = some parent → parent ∈ d.tasks.map (·.id) := by
  obtain ⟨_, hfields, hparents⟩ := except_bind_iff.mp h
  rw [ensure_ok] at hfields
  simp only [Bool.and_eq_true, decide_eq_true_eq, hasStatus_iff, Bool.not_eq_true',
    List.contains_eq_mem, decide_eq_false_iff_not] at hfields
  refine ⟨hfields.1.1.1.1.1.1, hfields.1.1.1.1.1.2, hfields.2, ?_⟩
  intro parent hparent
  rw [hparent] at hparents
  exact checkParents_ok hparents

theorem checkTasks_ok {numbers : List ℤ} {tasks : List Task}
    (h : d.checkTasks numbers tasks = .ok ()) :
    (∀ t ∈ tasks, ∃ seen, d.checkTask seen t = .ok ()) ∧
      (tasks.map (·.issueNumber)).Nodup ∧ ∀ t ∈ tasks, t.issueNumber ∉ numbers := by
  induction tasks generalizing numbers with
  | nil => simp
  | cons task rest ih =>
    obtain ⟨_, htask, hrest⟩ := except_bind_iff.mp h
    obtain ⟨hall, hnodup, hfresh⟩ := ih hrest
    refine ⟨?_, ?_, ?_⟩
    · intro t ht
      rcases List.mem_cons.mp ht with rfl | ht
      · exact ⟨numbers, htask⟩
      · exact hall t ht
    · rw [List.map_cons, List.nodup_cons]
      refine ⟨?_, hnodup⟩
      intro hmem
      obtain ⟨t, ht, heq⟩ := List.mem_map.mp hmem
      exact hfresh t ht (heq ▸ List.mem_cons_self)
    · intro t ht
      rcases List.mem_cons.mp ht with rfl | ht
      · exact (checkTask_ok htask).2.2.1
      · exact fun hmem => hfresh t ht (List.mem_cons_of_mem _ hmem)

theorem validate_ok (h : d.validate = .ok ()) : d.Wellformed := by
  obtain ⟨_, _, h⟩ := except_bind_iff.mp h
  obtain ⟨_, _, h⟩ := except_bind_iff.mp h
  obtain ⟨_, hids, h⟩ := except_bind_iff.mp h
  obtain ⟨_, hprojects, h⟩ := except_bind_iff.mp h
  obtain ⟨_, htasks, hlinks⟩ := except_bind_iff.mp h
  obtain ⟨hall, hnumbers, _⟩ := checkTasks_ok htasks
  rw [ensure_ok] at hids hprojects hlinks
  simp only [Bool.and_eq_true, decide_eq_true_eq] at hids
  simp only [Bool.and_eq_true, List.all_eq_true, decide_eq_true_eq] at hprojects
  simp only [Bool.and_eq_true, List.all_eq_true, hasTask_iff, hasTag_iff] at hlinks
  obtain ⟨⟨⟨htags, hassignees⟩, hfollowers⟩, hrelationships⟩ := hlinks
  have htask := fun t ht => checkTask_ok (hall t ht).choose_spec
  constructor
  case ids => exact hids.2
  case statusProject => exact hprojects.1
  case tagProject => exact hprojects.2
  case taskProject => exact fun t ht => (htask t ht).1
  case taskStatus => exact fun t ht => (htask t ht).2.1
  case taskParent => exact fun t ht => (htask t ht).2.2.2
  case numbers => exact hnumbers
  case tagged => exact htags
  case assigned => exact hassignees
  case followed => exact hfollowers
  case related => exact fun r hr => (hrelationships r hr).1

end ProjectDocument

structure CreateTaskRequest where
  id : Option Uuid
  projectId : Uuid
  statusId : Uuid
  title : String
  description : Option String
  priority : Option TaskPriority
  startDate : Option DateTime
  targetDate : Option DateTime
  completedAt : Option DateTime
  sortOrder : F64
  parentIssueId : Option Uuid
  parentIssueSortOrder : Option F64
  extensionMetadata : Json
deriving Repr, DecidableEq

/-- The task holds exactly what the request asks for. -/
def CreateTaskRequest.matchesTask (request : CreateTaskRequest) (task : Task) : Bool :=
  task.projectId = request.projectId && task.title = request.title
    && task.description = request.description && task.statusId = request.statusId
    && task.priority = request.priority && task.startDate = request.startDate
    && task.targetDate = request.targetDate && task.completedAt = request.completedAt
    && task.sortOrder = request.sortOrder && task.parentIssueId = request.parentIssueId
    && task.parentIssueSortOrder = request.parentIssueSortOrder
    && task.extensionMetadata = request.extensionMetadata

/-- `fresh` is the generated id and `now` the clock. -/
def ProjectDocument.insertTask (d : ProjectDocument) (request : CreateTaskRequest) (fresh : Uuid)
    (now : DateTime) : Except ApiError (Uuid × ProjectDocument) :=
  let id := request.id.getD fresh
  match d.tasks.find? (·.id = id) with
  | some existing =>
    if request.matchesTask existing then .ok (id, d)
    else .error (invalid "Task ID already exists with different content")
  | none =>
    let largest := (d.tasks.map (·.issueNumber)).max?.getD 0
    if i32Max ≤ largest then .error (invalid "Task number overflow")
    else
      let issueNumber := largest + 1
      .ok (id, { d with tasks := d.tasks ++ [{
        id := id
        projectId := request.projectId
        issueNumber := issueNumber
        simpleId := "TASK-" ++ toString issueNumber
        statusId := request.statusId
        title := request.title
        description := request.description
        priority := request.priority
        startDate := request.startDate
        targetDate := request.targetDate
        completedAt := request.completedAt
        sortOrder := request.sortOrder
        parentIssueId := request.parentIssueId
        parentIssueSortOrder := request.parentIssueSortOrder
        extensionMetadata := request.extensionMetadata
        creatorUserId := none
        createdAt := now
        updatedAt := now }] })

structure CreateProjectRequest where
  id : Option Uuid
  organizationId : Uuid
  name : String
  color : String
deriving Repr, DecidableEq

def defaultStatuses : List (String × String × ℤ × Bool) := [
  ("Todo", "210 80% 52%", 100, false),
  ("In Progress", "38 92% 50%", 200, false),
  ("In Review", "265 70% 62%", 300, false),
  ("Done", "145 63% 42%", 400, false),
  ("Cancelled", "0 0% 50%", 500, true)]

def defaultTags : List (String × String) := [
  ("bug", "355 65% 53%"),
  ("feature", "124 82% 30%"),
  ("documentation", "205 100% 40%"),
  ("enhancement", "181 72% 78%")]

/-- A document for a new project; `fresh` gives the generated ids in order. -/
def ProjectDocument.new (request : CreateProjectRequest) (fresh : ℕ → Uuid) (now : DateTime) :
    ProjectDocument :=
  let id := request.id.getD (fresh 0)
  { schemaVersion := formatVersion
    revision := 1
    project := {
      id := id
      organizationId := 2
      name := request.name
      color := request.color
      sortOrder := 0
      createdAt := now
      updatedAt := now }
    statuses := defaultStatuses.mapIdx fun i (name, color, sortOrder, hidden) =>
      { id := fresh (1 + i), projectId := id, name, color, sortOrder, hidden, createdAt := now }
    tags := defaultTags.mapIdx fun i (name, color) =>
      { id := fresh (1 + defaultStatuses.length + i), projectId := id, name, color }
    tasks := []
    taskTags := []
    taskAssignees := []
    taskFollowers := []
    taskRelationships := [] }

end VibeKanban.ProjectStore
