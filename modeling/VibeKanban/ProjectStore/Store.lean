import VibeKanban.Lib.Transaction
import VibeKanban.ProjectStore.Projection

/-! The calls of the project store: each runs in one `BEGIN IMMEDIATE` transaction and publishes the
project document by renaming a staged file over it. -/
namespace VibeKanban.ProjectStore
open Lib

/-- The reader stops at its 128th level; a task lies at the third level of its document. -/
def ProjectDocument.Legible (d : ProjectDocument) : Prop :=
  ∀ task ∈ d.tasks, task.extensionMetadata.nesting ≤ 124

instance (d : ProjectDocument) : Decidable d.Legible :=
  inferInstanceAs (Decidable (∀ task ∈ d.tasks, task.extensionMetadata.nesting ≤ 124))

/-- Reading and writing of project files. What is read back of a written document is valid when the
document is, and has its revision. -/
structure DocumentCodec where
  Content : Type
  encode : ProjectDocument → Content
  decode : Content → Except String ProjectDocument
  size : Content → ℕ
  readBack : ∀ d : ProjectDocument, d.validate = .ok () → d.Legible →
    ∃ d', decode (encode d) = .ok d' ∧ d'.validate = .ok () ∧ d'.revision = d.revision

def maxBytes : ℕ := 32 * 1024 * 1024

/-- The project documents by their directory, and the temporary files. -/
structure Files (C : Type) where
  documents : String → Option C
  temporaries : ℕ → Option C

section
variable (F : DocumentCodec)

/-- What a call does in its transaction, one failure point each. -/
inductive Stmt where
  | query
  | sql (f : Database → Except ApiError Database)
  | readFile (root : String)
  | writeTemporary (content : F.Content)
  | persist (temporary : ℕ) (root : String) (noclobber : Bool)

abbrev Stmt.Answer : Stmt F → Type
  | .query => Except ApiError Database
  | .sql _ => Except ApiError Unit
  | .readFile _ => Except ApiError (Option F.Content)
  | .writeTemporary _ => Except ApiError ℕ
  | .persist .. => Except ApiError Unit

abbrev StoreProg (α : Type) := Prog (Stmt F) (Stmt.Answer F) ApiError α

/-- The file is renamed over the destination as a whole; a write that fails leaves any content, but
in the temporary file only. -/
inductive exec : (s : Stmt F) → Database × Files F.Content → Stmt.Answer F s →
    Database × Files F.Content → Prop where
  | query (db files) : exec .query (db, files) (.ok db) (db, files)
  | queryFails (db files) : exec .query (db, files) (.error .database) (db, files)
  | sql {f db db'} (files) : f db = .ok db' → exec (.sql f) (db, files) (.ok ()) (db', files)
  | sqlRefused {f db e} (files) : f db = .error e →
    exec (.sql f) (db, files) (.error e) (db, files)
  | sqlFails (f db files) : exec (.sql f) (db, files) (.error .database) (db, files)
  | readFile (db files root) :
    exec (.readFile root) (db, files) (.ok (files.documents root)) (db, files)
  | readFails (db files root) : exec (.readFile root) (db, files) (.error .io) (db, files)
  | write (db) {files : Files F.Content} {i} (content) : files.temporaries i = none →
    exec (.writeTemporary content) (db, files) (.ok i)
      (db, { files with temporaries := Function.update files.temporaries i (some content) })
  | writeFails (db) (files : Files F.Content) (i content torn) :
    exec (.writeTemporary content) (db, files) (.error .io)
      (db, { files with temporaries := Function.update files.temporaries i torn })
  | persist (db) {files : Files F.Content} {i content root noclobber} :
    files.temporaries i = some content → (noclobber = true → files.documents root = none) →
    exec (.persist i root noclobber) (db, files) (.ok ())
      (db, { documents := Function.update files.documents root (some content)
             temporaries := Function.update files.temporaries i none })
  | persistFails (db files i root noclobber) :
    exec (.persist i root noclobber) (db, files) (.error .io) (db, files)

end

section Programs
variable {F : DocumentCodec} {α : Type}

def query : StoreProg F Database := do
  let answer ← Prog.stmt (Stmt.query : Stmt F)
  Prog.ofExcept answer

def sql (f : Database → Except ApiError Database) : StoreProg F Unit := do
  let answer ← Prog.stmt (Stmt.sql f : Stmt F)
  Prog.ofExcept answer

def readFile (root : String) : StoreProg F (Option F.Content) := do
  let answer ← Prog.stmt (Stmt.readFile root : Stmt F)
  Prog.ofExcept answer

def writeTemporary (content : F.Content) : StoreProg F ℕ := do
  let answer ← Prog.stmt (Stmt.writeTemporary content : Stmt F)
  Prog.ofExcept answer

def persist (temporary : ℕ) (root : String) (noclobber : Bool) : StoreProg F Unit := do
  let answer ← Prog.stmt (Stmt.persist temporary root noclobber : Stmt F)
  Prog.ofExcept answer

def refuse (e : ApiError) : StoreProg F α := .fail e

def readPath (root : String) : StoreProg F ProjectDocument := do
  match ← readFile root with
  | none => refuse .io
  | some content =>
    if maxBytes < F.size content then refuse .payloadTooLarge
    else
      match F.decode content with
      | .error message => refuse (invalid message)
      | .ok document =>
        Prog.ofExcept document.validate
        return document

structure PreparedDocument where
  temporary : ℕ
  destination : String
  expectedRevision : Option ℤ

def stage (root : String) (document : ProjectDocument) (expectedRevision : Option ℤ) :
    StoreProg F PreparedDocument := do
  Prog.ofExcept document.validate
  let content := F.encode document
  if maxBytes < F.size content then refuse .payloadTooLarge
  else
    let temporary ← writeTemporary content
    return ⟨temporary, root, expectedRevision⟩

def PreparedDocument.publish (prepared : PreparedDocument) : StoreProg F Unit := do
  match prepared.expectedRevision with
  | some revision =>
    let current ← readPath prepared.destination
    if current.revision ≠ revision then
      refuse (invalid "Project changed during this operation; retry")
    else persist prepared.temporary prepared.destination false
  | none => persist prepared.temporary prepared.destination true

/-- The document of a project that has only rows so far. -/
def legacyIn (db : Database) (projectId : Uuid) : Except ApiError ProjectDocument := do
  match db.projects.find? (·.id = projectId) with
  | none => .error .database
  | some row =>
    let metadata := db.metadata.find? (·.projectId = projectId)
    let document : ProjectDocument := {
      schemaVersion := formatVersion
      revision := 1
      project := {
        id := row.id
        organizationId := (metadata.map (·.organizationId)).getD 2
        name := row.name
        color := (metadata.map (·.color)).getD "210 80% 52%"
        sortOrder := (metadata.map (·.sortOrder)).getD 0
        createdAt := row.createdAt
        updatedAt := row.updatedAt }
      statuses := db.statuses.filter (·.projectId = projectId)
      tags := db.tags.filter (·.projectId = projectId)
      tasks := db.tasks.filter (·.projectId = projectId)
      taskTags := db.taskTags.filter (db.ownsTask projectId ·.issueId)
      taskAssignees := db.taskAssignees.filter (db.ownsTask projectId ·.issueId)
      taskFollowers := db.taskFollowers.filter (db.ownsTask projectId ·.issueId)
      taskRelationships := db.taskRelationships.filter (db.ownsTask projectId ·.issueId) }
    document.validate
    return document

def Database.projectPaths (db : Database) (projectId : Uuid) : List String :=
  db.projectRepos.filterMap fun (project, repo) =>
    if project = projectId then (db.repos.find? (·.1 = repo)).map (·.2) else none

def Database.defaults (db : Database) (projectId : Uuid) : Option ProjectRepoDefaultsData :=
  (db.scratch.find? (·.1 = projectId)).map (·.2)

/-- The directory named by the defaults of a project, if it is not blank. -/
def ProjectRepoDefaultsData.directory (defaults : ProjectRepoDefaultsData) : Option String :=
  defaults.directoryPath.filter (!isBlank ·)

section Directories
-- What the file system answers during the call.
variable (canonicalize : String → Option String)

/-- A path the project is already bound to must lead to the directory. -/
def requireRoot (root path message : String) : Except ApiError Unit :=
  match canonicalize path with
  | none => .error .io
  | some other => ensure (other = root) (.conflict message)

/-- A project without a mount may still be bound to a directory by its defaults or repository. -/
def checkBinding (db : Database) (root : String) (projectId : Uuid) : Except ApiError Unit := do
  match db.defaults projectId with
  | none => .ok ()
  | some defaults =>
    match defaults.directory with
    | some path =>
      requireRoot canonicalize root path
        "This project's existing local workspace belongs to another directory"
    | none =>
      match defaults.repos with
      | [repo] =>
        match db.repos.find? (·.1 = repo) with
        | none => .error (invalid "Existing project repository is unavailable")
        | some (_, path) =>
          requireRoot canonicalize root path
            "This project's existing repository belongs to another directory"
      | _ => .ok ()
  match db.projectPaths projectId with
  | [path] =>
    requireRoot canonicalize root path
      "This project's registered repository belongs to another directory"
  | _ => .ok ()

def registerIn (root : String) (document : ProjectDocument) (db : Database) :
    Except ApiError Database := do
  document.validate
  let id := document.project.id
  match db.mounts.find? (·.projectId = id) with
  | some mount =>
    ensure (mount.directoryPath = root)
      (.conflict "This project is already open from another directory")
  | none => checkBinding canonicalize db root id
  ensure (db.mounts.all fun m => m.directoryPath ≠ root || m.projectId = id)
    (invalid "Directory is already registered to a different project identity")
  let createdAt := ((db.projects.find? (·.id = id)).map (·.createdAt)).getD
    document.project.createdAt
  return { db with
    projects :=
      put (·.id) ⟨id, document.project.name, createdAt, document.project.updatedAt⟩ db.projects
    mounts := if db.mounts.any (·.projectId = id) then db.mounts else db.mounts ++ [⟨id, root, 0⟩]
    scratch :=
      if db.scratch.any (·.1 = id) then db.scratch else db.scratch ++ [(id, ⟨[], some root⟩)] }

/-- Where a project that was never mounted lives. -/
def legacyDirectory (db : Database) (projectId : Uuid) : Except ApiError String :=
  let defaults := db.defaults projectId
  match defaults.bind (·.directory) with
  | some path => .ok path
  | none =>
    let path :=
      match db.projectPaths projectId, defaults.map (·.repos) with
      | [path], _ => some path
      | [], some [repo] => (db.repos.find? (·.1 = repo)).map (·.2)
      | _, _ => none
    match path with
    | some path => .ok path
    | none =>
      .error (.conflict
        "PROJECT_SPACE_REQUIRED: Open this project's directory before managing its tasks")

def isAbsolute (path : String) : Bool := path.toList.head? = some '/'

/-- The document found in the directory, or else the one given. -/
def documentOf (root : String) (found : Bool) (other : Except ApiError ProjectDocument) :
    StoreProg F ProjectDocument :=
  if found then readPath root else Prog.ofExcept other

/-- Register the directory, write the rows, and publish the document if it is new. -/
def install (root : String) (document : ProjectDocument) (found : Bool) :
    StoreProg F (String × ProjectDocument) := do
  sql (registerIn canonicalize root document)
  sql (projectIn document)
  if !found then
    let prepared ← stage root document none
    prepared.publish
  return (root, document)

/-- Exactly-once adoption of a project that has only rows: its document is published before the call
goes on. -/
def adoptIn (projectId : Uuid) : StoreProg F (String × ProjectDocument) := do
  if projectId = defaultProjectId then
    refuse (invalid "Default project has no portable task directory")
  else
    let db ← query
    let path ← Prog.ofExcept (legacyDirectory db projectId)
    if !isAbsolute path then refuse (invalid "Project directory must be absolute")
    else
      match canonicalize path with
      | none => refuse .io
      | some root =>
        let found := (← readFile root).isSome
        let document ← documentOf root found (legacyIn db projectId)
        if document.project.id ≠ projectId then
          refuse (.conflict
            "Directory contains another project; open it using its existing identity")
        else install canonicalize root document found

def loadIn (projectId : Uuid) : StoreProg F (String × ProjectDocument) := do
  let db ← query
  match db.mounts.find? (·.projectId = projectId) with
  | none => adoptIn canonicalize projectId
  | some mount =>
    match canonicalize mount.directoryPath with
    | none => refuse .io
    | some root =>
      let document ← readPath root
      if document.project.id ≠ projectId then
        refuse (invalid "Project identity does not match its registered directory")
      else return (root, document)

def read (projectId : Uuid) : StoreProg F (String × ProjectDocument) := do
  let (root, document) ← loadIn canonicalize projectId
  sql (projectIn document)
  return (root, document)

/-- The revision after a change. -/
def nextRevision (revision : ℤ) : Except ApiError ℤ :=
  if revision < i64Max then .ok (revision + 1) else .error (invalid "Revision overflow")

def mutate (projectId : Uuid) (change : ProjectDocument → Except ApiError ProjectDocument)
    (now : DateTime) : StoreProg F (String × ProjectDocument) := do
  let (root, document) ← loadIn canonicalize projectId
  let changed ← Prog.ofExcept (change document)
  let revision ← Prog.ofExcept (nextRevision document.revision)
  let next := { changed with revision, project := { changed.project with updatedAt := now } }
  Prog.ofExcept next.validate
  sql (projectIn next)
  let prepared ← stage root next (some document.revision)
  prepared.publish
  return (root, next)

def insertTaskIn (request : CreateTaskRequest) (fresh : Uuid) (now : DateTime) :
    StoreProg F (String × ProjectDocument × PreparedDocument) := do
  let (root, document) ← loadIn canonicalize request.projectId
  let (_, inserted) ← Prog.ofExcept (document.insertTask request fresh now)
  let revision ← Prog.ofExcept (nextRevision inserted.revision)
  let next := { inserted with revision }
  Prog.ofExcept next.validate
  sql (projectIn next)
  let prepared ← stage root next (some document.revision)
  return (root, next, prepared)

/-- `insert_task_in` and its caller, which adds its own rows before it publishes; whatever it refuses
drops the staged document. -/
def insertTask (request : CreateTaskRequest) (fresh : Uuid) (now : DateTime)
    (accept : Database → Except ApiError (List Uuid × List Uuid)) :
    StoreProg F (String × ProjectDocument) := do
  let (root, next, prepared) ← insertTaskIn canonicalize request fresh now
  sql fun db => do
    let (executions, held) ← accept db
    return { db with executions, prepared := held }
  prepared.publish
  return (root, next)

/-- The document of a directory that is opened and has none yet. -/
def openedDocument (db : Database) (request : CreateProjectRequest) (fresh : ℕ → Uuid)
    (now : DateTime) : Except ApiError ProjectDocument :=
  match request.id with
  | some id =>
    if db.projects.any (·.id = id) then legacyIn db id
    else .ok (ProjectDocument.new request fresh now)
  | none => .ok (ProjectDocument.new request fresh now)

def openProject (isDir : String → Bool) (directory : String) (request : CreateProjectRequest)
    (fresh : ℕ → Uuid) (now : DateTime) : StoreProg F (String × ProjectDocument) := do
  if !isAbsolute directory then refuse (.badRequest "Select an absolute project directory")
  else
    match canonicalize directory with
    | none => refuse .io
    | some root =>
      if !isDir root then refuse (.badRequest "Select a project directory")
      else
        let existing := (← readFile root).isSome
        let db ← query
        if db.mounts.any (·.directoryPath = root) && !existing then
          refuse (invalid ("The registered project document is missing; it must not be recreated "
            ++ "from the local index"))
        else
          let document ← documentOf root existing (openedDocument db request fresh now)
          install canonicalize root document existing

end Directories

end Programs

/-- The calls, each with what the file system and the clock answer it. -/
inductive Call where
  | read (canonicalize : String → Option String) (projectId : Uuid)
  | mutate (canonicalize : String → Option String) (projectId : Uuid)
    (change : ProjectDocument → Except ApiError ProjectDocument) (now : DateTime)
  | insertTask (canonicalize : String → Option String) (request : CreateTaskRequest) (fresh : Uuid)
    (now : DateTime) (accept : Database → Except ApiError (List Uuid × List Uuid))
  | openProject (canonicalize : String → Option String) (isDir : String → Bool)
    (directory : String) (request : CreateProjectRequest) (fresh : ℕ → Uuid) (now : DateTime)

def Call.body {F : DocumentCodec} : Call → StoreProg F (String × ProjectDocument)
  | .read canonicalize projectId => ProjectStore.read canonicalize projectId
  | .mutate canonicalize projectId change now =>
    ProjectStore.mutate canonicalize projectId change now
  | .insertTask canonicalize request fresh now accept =>
    ProjectStore.insertTask canonicalize request fresh now accept
  | .openProject canonicalize isDir directory request fresh now =>
    ProjectStore.openProject canonicalize isDir directory request fresh now

end VibeKanban.ProjectStore
