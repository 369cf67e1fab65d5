import VibeKanban.Lib.Upsert
import VibeKanban.ProjectStore.Document

/-! The SQL projection of project documents: the tables with their keys, uniqueness constraints
and foreign keys, and `project_in`, which writes a document over the rows of its project. -/
namespace VibeKanban.ProjectStore
open Lib

structure ProjectRow where
  id : Uuid
  name : String
  createdAt : DateTime
  updatedAt : DateTime
deriving Repr, DecidableEq

structure MetadataRow where
  projectId : Uuid
  organizationId : Uuid
  color : String
  sortOrder : ℤ
deriving Repr, DecidableEq

structure MountRow where
  projectId : Uuid
  directoryPath : String
  indexedRevision : ℤ
deriving Repr, DecidableEq

/-- The defaults stored for a project before it has a directory of its own. -/
structure ProjectRepoDefaultsData where
  repos : List Uuid
  directoryPath : Option String
deriving Repr, DecidableEq

/-- The tables the store reads and writes. `executions` are the issue ids of `tasks` and
`workflow_runs`, `prepared` those the main-session tables hold with `ON DELETE RESTRICT`. -/
structure Database where
  projects : List ProjectRow
  metadata : List MetadataRow
  mounts : List MountRow
  statuses : List ProjectStatus
  tags : List Tag
  tasks : List Task
  taskTags : List TaskTag
  taskAssignees : List TaskAssignee
  taskFollowers : List TaskFollower
  taskRelationships : List TaskRelationship
  executions : List Uuid
  prepared : List Uuid
  scratch : List (Uuid × ProjectRepoDefaultsData)
  repos : List (Uuid × String)
  projectRepos : List (Uuid × Uuid)
deriving Repr, DecidableEq

section Constraints

/-- `UNIQUE (project_id, issue_number)` and `UNIQUE (project_id, simple_id)`. -/
def Task.clash (a b : Task) : Bool :=
  a.projectId = b.projectId && (a.issueNumber = b.issueNumber || a.simpleId = b.simpleId)

/-- `UNIQUE (issue_id, tag_id)`. -/
def TaskTag.clash (a b : TaskTag) : Bool := a.issueId = b.issueId && a.tagId = b.tagId

/-- `UNIQUE (issue_id, user_id)`. -/
def TaskAssignee.clash (a b : TaskAssignee) : Bool := a.issueId = b.issueId && a.userId = b.userId

/-- `UNIQUE (issue_id, user_id)`. -/
def TaskFollower.clash (a b : TaskFollower) : Bool := a.issueId = b.issueId && a.userId = b.userId

/-- The table has no uniqueness constraint besides its key. -/
def noClash {ρ : Type} (_ _ : ρ) : Bool := false

end Constraints

namespace Database
variable (db : Database)

/-- Some task with the id belongs to the project. -/
def ownsTask (project id : Uuid) : Bool := db.tasks.any fun t => t.id = id && t.projectId = project

/-- Some task with the id belongs to another project. -/
def foreignTask (project id : Uuid) : Bool :=
  db.tasks.any fun t => t.id = id && t.projectId ≠ project

/-- No row refers to a row that is not there. -/
structure ForeignKeys : Prop where
  metadataProject : ∀ r ∈ db.metadata, r.projectId ∈ db.projects.map (·.id)
  mountProject : ∀ r ∈ db.mounts, r.projectId ∈ db.projects.map (·.id)
  statusProject : ∀ r ∈ db.statuses, r.projectId ∈ db.projects.map (·.id)
  tagProject : ∀ r ∈ db.tags, r.projectId ∈ db.projects.map (·.id)
  taskProject : ∀ t ∈ db.tasks, t.projectId ∈ db.projects.map (·.id)
  taskStatus : ∀ t ∈ db.tasks, t.statusId ∈ db.statuses.map (·.id)
  taskParent : ∀ t ∈ db.tasks, ∀ id ∈ t.parentIssueId, id ∈ db.tasks.map (·.id)
  tagged : ∀ r ∈ db.taskTags, r.issueId ∈ db.tasks.map (·.id) ∧ r.tagId ∈ db.tags.map (·.id)
  assigned : ∀ r ∈ db.taskAssignees, r.issueId ∈ db.tasks.map (·.id)
  followed : ∀ r ∈ db.taskFollowers, r.issueId ∈ db.tasks.map (·.id)
  related : ∀ r ∈ db.taskRelationships,
    r.issueId ∈ db.tasks.map (·.id) ∧ r.relatedIssueId ∈ db.tasks.map (·.id)
  executed : ∀ id ∈ db.executions, id ∈ db.tasks.map (·.id)
  prepared : ∀ id ∈ db.prepared, id ∈ db.tasks.map (·.id)

/-- `PRAGMA foreign_key_check` finds nothing. -/
def foreignKeyCheck : Bool :=
  db.metadata.all (fun r => db.projects.any (·.id = r.projectId))
    && db.mounts.all (fun r => db.projects.any (·.id = r.projectId))
    && db.statuses.all (fun r => db.projects.any (·.id = r.projectId))
    && db.tags.all (fun r => db.projects.any (·.id = r.projectId))
    && db.tasks.all (fun t => db.projects.any (·.id = t.projectId)
      && db.statuses.any (·.id = t.statusId)
      && t.parentIssueId.all fun id => db.tasks.any (·.id = id))
    && db.taskTags.all (fun r => db.tasks.any (·.id = r.issueId) && db.tags.any (·.id = r.tagId))
    && db.taskAssignees.all (fun r => db.tasks.any (·.id = r.issueId))
    && db.taskFollowers.all (fun r => db.tasks.any (·.id = r.issueId))
    && db.taskRelationships.all (fun r =>
      db.tasks.any (·.id = r.issueId) && db.tasks.any (·.id = r.relatedIssueId))
    && db.executions.all (fun id => db.tasks.any (·.id = id))
    && db.prepared.all (fun id => db.tasks.any (·.id = id))

end Database

section Upserts
variable {ρ : Type} (key : ρ → Uuid) (clash : ρ → ρ → Bool) (foreign : ρ → Bool) (message : String)

/-- `upsert`: a row of another project is never overwritten, and the statement fails on a
uniqueness constraint. -/
def upsertRow (row : ρ) (table : List ρ) : Except ApiError (List ρ) :=
  if table.any fun r => key r = key row && foreign r then .error (invalid message)
  else
    match upsert key clash row table with
    | none => .error .database
    | some table => .ok table

def upsertRows : List ρ → List ρ → Except ApiError (List ρ)
  | [], table => .ok table
  | row :: rest, table => do
    let table ← upsertRow key clash foreign message row table
    upsertRows rest table

end Upserts

def foreignRecord : String := "Record ID belongs to another registered project"
def foreignRelationship : String := "Relationship ID belongs to another registered project"

/-- `UPDATE projects` and the upsert of its metadata. -/
def updateProject (project : Project) (db : Database) : Database :=
  { db with
    projects := updateWhere (·.id = project.id)
      (fun r => { r with name := project.name, updatedAt := project.updatedAt }) db.projects
    metadata :=
      if db.metadata.any (·.projectId = project.id) then
        updateWhere (·.projectId = project.id)
          (fun r => { r with color := project.color, sortOrder := project.sortOrder }) db.metadata
      else db.metadata ++ [⟨project.id, 2, project.color, project.sortOrder⟩] }

def upsertRecords (d : ProjectDocument) (db : Database) : Except ApiError Database := do
  let id := d.project.id
  let statuses ← upsertRows (·.id) noClash (·.projectId ≠ id) foreignRecord d.statuses db.statuses
  let tags ← upsertRows (·.id) noClash (·.projectId ≠ id) foreignRecord d.tags db.tags
  let tasks ← upsertRows (·.id) Task.clash (·.projectId ≠ id) foreignRecord d.tasks db.tasks
  return { db with statuses, tags, tasks }

/-- Drop every association of the project's tasks. -/
def clearAssociations (project : Uuid) (db : Database) : Database :=
  { db with
    taskTags := db.taskTags.filter (!db.ownsTask project ·.issueId)
    taskAssignees := db.taskAssignees.filter (!db.ownsTask project ·.issueId)
    taskFollowers := db.taskFollowers.filter (!db.ownsTask project ·.issueId)
    taskRelationships := db.taskRelationships.filter (!db.ownsTask project ·.issueId) }

def upsertAssociations (d : ProjectDocument) (db : Database) : Except ApiError Database := do
  let id := d.project.id
  let taskTags ← upsertRows (·.id) TaskTag.clash (db.foreignTask id ·.issueId)
    foreignRelationship d.taskTags db.taskTags
  let taskAssignees ← upsertRows (·.id) TaskAssignee.clash (db.foreignTask id ·.issueId)
    foreignRelationship d.taskAssignees db.taskAssignees
  let taskFollowers ← upsertRows (·.id) TaskFollower.clash (db.foreignTask id ·.issueId)
    foreignRelationship d.taskFollowers db.taskFollowers
  let taskRelationships ← upsertRows (·.id) noClash (db.foreignTask id ·.issueId)
    foreignRelationship d.taskRelationships db.taskRelationships
  return { db with taskTags, taskAssignees, taskFollowers, taskRelationships }

/-- `DELETE FROM local_issues WHERE id`, with what hangs on it. -/
def deleteTask (db : Database) (id : Uuid) : Except ApiError Database :=
  if db.executions.contains id then
    .error (.conflict "Stop and remove this task's executions before deleting it")
  else if db.prepared.contains id then .error .database
  else .ok { db with
    tasks := updateWhere (·.parentIssueId = some id) (fun t => { t with parentIssueId := none })
      (db.tasks.filter (·.id ≠ id))
    taskTags := db.taskTags.filter (·.issueId ≠ id)
    taskAssignees := db.taskAssignees.filter (·.issueId ≠ id)
    taskFollowers := db.taskFollowers.filter (·.issueId ≠ id)
    taskRelationships := db.taskRelationships.filter fun r =>
      r.issueId ≠ id && r.relatedIssueId ≠ id }

def deleteStatus (db : Database) (id : Uuid) : Database :=
  { db with statuses := db.statuses.filter (·.id ≠ id) }

def deleteTag (db : Database) (id : Uuid) : Database :=
  { db with
    tags := db.tags.filter (·.id ≠ id)
    taskTags := db.taskTags.filter (·.tagId ≠ id) }

def deleteMissing (d : ProjectDocument) (db : Database) : Except ApiError Database := do
  let id := d.project.id
  let missing := (db.tasks.filter fun t => t.projectId = id && !d.hasTask t.id).map (·.id)
  let db ← missing.foldlM deleteTask db
  let missing := (db.statuses.filter fun s => s.projectId = id && !d.hasStatus s.id).map (·.id)
  let db := missing.foldl deleteStatus db
  let missing := (db.tags.filter fun t => t.projectId = id && !d.hasTag t.id).map (·.id)
  return missing.foldl deleteTag db

def indexRevision (d : ProjectDocument) (db : Database) : Database :=
  { db with
    mounts := updateWhere (·.projectId = d.project.id)
      (fun r => { r with indexedRevision := d.revision }) db.mounts }

/-- Project exact file state; foreign keys are deferred to the check at the end. -/
def projectIn (d : ProjectDocument) (db : Database) : Except ApiError Database := do
  d.validate
  let db ← upsertRecords d (updateProject d.project db)
  let db ← upsertAssociations d (clearAssociations d.project.id db)
  let db ← deleteMissing d db
  ensure db.foreignKeyCheck (invalid "Task mutation conflicts with local runtime references")
  return indexRevision d db

end VibeKanban.ProjectStore
