import VibeKanban.ProjectStore.Projection

/-! The statements of `project_in` stage by stage: when each of them succeeds and which rows the
tables have afterwards. -/
namespace VibeKanban.ProjectStore
open Lib

theorem Database.foreignKeyCheck_iff {db : Database} :
    db.foreignKeyCheck = true ↔ db.ForeignKeys := by
  have hprojects (id : Uuid) : (∃ r ∈ db.projects, r.id = id) ↔ id ∈ db.projects.map (·.id) :=
    List.mem_map.symm
  have hstatuses (id : Uuid) : (∃ r ∈ db.statuses, r.id = id) ↔ id ∈ db.statuses.map (·.id) :=
    List.mem_map.symm
  have htags (id : Uuid) : (∃ r ∈ db.tags, r.id = id) ↔ id ∈ db.tags.map (·.id) :=
    List.mem_map.symm
  have htasks (id : Uuid) : (∃ r ∈ db.tasks, r.id = id) ↔ id ∈ db.tasks.map (·.id) :=
    List.mem_map.symm
  simp only [foreignKeyCheck, Bool.and_eq_true, List.all_eq_true, List.any_eq_true,
    Option.all_eq_true, decide_eq_true_eq, hprojects, hstatuses, htags, htasks]
  constructor
  · rintro ⟨⟨⟨⟨⟨⟨⟨⟨⟨⟨hmetadata, hmounts⟩, hstatus⟩, htag⟩, htask⟩, htagged⟩, hassigned⟩, hfollowed⟩,
      hrelated⟩, hexecuted⟩, hprepared⟩
    exact ⟨hmetadata, hmounts, hstatus, htag, fun t ht => (htask t ht).1.1,
      fun t ht => (htask t ht).1.2, fun t ht => (htask t ht).2, htagged, hassigned, hfollowed,
      hrelated, hexecuted, hprepared⟩
  · intro h
    exact ⟨⟨⟨⟨⟨⟨⟨⟨⟨⟨h.metadataProject, h.mountProject⟩, h.statusProject⟩, h.tagProject⟩,
      fun t ht => ⟨⟨h.taskProject t ht, h.taskStatus t ht⟩, h.taskParent t ht⟩⟩, h.tagged⟩,
      h.assigned⟩, h.followed⟩, h.related⟩, h.executed⟩, h.prepared⟩

section Upserts
variable {ρ : Type} {key : ρ → Uuid} {clash : ρ → ρ → Bool} {foreign : ρ → Bool} {message : String}

theorem upsertRow_ok {row : ρ} {table table' : List ρ} :
    upsertRow key clash foreign message row table = .ok table' ↔
      (∀ r ∈ table, key r = key row → foreign r = false) ∧
        upsert key clash row table = some table' := by
  unfold upsertRow
  split_ifs with h
  · obtain ⟨r, hr, hboth⟩ := List.any_eq_true.mp h
    simp only [Bool.and_eq_true, decide_eq_true_eq] at hboth
    refine iff_of_false (fun herror => by cases herror) ?_
    rintro ⟨hall, _⟩
    have hlocal := hall r hr hboth.1
    rw [hboth.2] at hlocal
    cases hlocal
  · have hlocal : ∀ r ∈ table, key r = key row → foreign r = false := by
      intro r hr hkey
      by_contra hforeign
      exact h (List.any_eq_true.mpr ⟨r, hr, by simpa [hkey] using hforeign⟩)
    rw [and_iff_right hlocal]
    cases upsert key clash row table with
    | none => exact iff_of_false (fun herror => by cases herror) fun hnone => by cases hnone
    | some t => simp only [Except.ok.injEq, Option.some.injEq]

/-- The upserts succeed when no row of another project is hit and every statement keeps the
uniqueness constraints. -/
theorem upsertRows_ok {rows table table' : List ρ} (hrows : (rows.map key).Nodup) :
    upsertRows key clash foreign message rows table = .ok table' ↔
      (∀ r ∈ table, key r ∈ rows.map key → foreign r = false) ∧
        upsertAll key clash rows table = some table' := by
  induction rows generalizing table with
  | nil => simp [upsertRows, upsertAll]
  | cons row rest ih =>
    rw [List.map_cons, List.nodup_cons] at hrows
    rw [upsertRows, except_bind_iff, upsertAll, Option.bind_eq_some_iff]
    constructor
    · rintro ⟨middle, hrow, hrest⟩
      obtain ⟨hforeign, hupsert⟩ := upsertRow_ok.mp hrow
      obtain ⟨hforeigns, hupserts⟩ := (ih hrows.2).mp hrest
      refine ⟨?_, middle, hupsert, hupserts⟩
      intro r hr hkey
      obtain ⟨_, rfl⟩ := upsert_eq_some.mp hupsert
      by_cases hsame : key r = key row
      · exact hforeign r hr hsame
      · have hin := (List.mem_cons.mp hkey).resolve_left hsame
        exact hforeigns r (mem_put.mpr (Or.inr ⟨hr, hsame⟩)) hin
    · rintro ⟨hforeign, middle, hupsert, hupserts⟩
      refine ⟨middle, upsertRow_ok.mpr ⟨?_, hupsert⟩, (ih hrows.2).mpr ⟨?_, hupserts⟩⟩
      · exact fun r hr hkey => hforeign r hr (hkey ▸ List.mem_cons_self)
      · intro r hr hkey
        obtain ⟨_, rfl⟩ := upsert_eq_some.mp hupsert
        rcases mem_put.mp hr with rfl | ⟨hr, _⟩
        · exact (hrows.1 hkey).elim
        · exact hforeign r hr (List.mem_cons_of_mem _ hkey)

end Upserts

section Deletes

/-- The task loses its parent when that is deleted. -/
def orphan (ids : List Uuid) (t : Task) : Task :=
  if t.parentIssueId.any ids.contains then { t with parentIssueId := none } else t

/-- The database after the tasks with these ids are gone. -/
def Database.withoutTasks (ids : List Uuid) (db : Database) : Database :=
  { db with
    tasks := (db.tasks.filter fun t => !ids.contains t.id).map (orphan ids)
    taskTags := db.taskTags.filter fun r => !ids.contains r.issueId
    taskAssignees := db.taskAssignees.filter fun r => !ids.contains r.issueId
    taskFollowers := db.taskFollowers.filter fun r => !ids.contains r.issueId
    taskRelationships := db.taskRelationships.filter fun r =>
      !ids.contains r.issueId && !ids.contains r.relatedIssueId }

@[simp] theorem orphan_id (ids : List Uuid) (t : Task) : (orphan ids t).id = t.id := by
  unfold orphan
  split_ifs <;> rfl

@[simp] theorem orphan_projectId (ids : List Uuid) (t : Task) :
    (orphan ids t).projectId = t.projectId := by
  unfold orphan
  split_ifs <;> rfl

@[simp] theorem orphan_statusId (ids : List Uuid) (t : Task) :
    (orphan ids t).statusId = t.statusId := by
  unfold orphan
  split_ifs <;> rfl

theorem orphan_parent {ids : List Uuid} {t : Task} {id : Uuid}
    (h : (orphan ids t).parentIssueId = some id) : t.parentIssueId = some id ∧ id ∉ ids := by
  unfold orphan at h
  split_ifs at h with hany
  refine ⟨h, fun hmem => hany ?_⟩
  rw [h]
  exact List.contains_iff_mem.mpr hmem

theorem orphan_orphan (id : Uuid) (ids : List Uuid) (t : Task) :
    orphan ids (orphan [id] t) = orphan (id :: ids) t := by
  cases hparent : t.parentIssueId with
  | none => simp [orphan, hparent]
  | some parent =>
    by_cases hid : parent = id
    · simp [orphan, hparent, hid]
    · simp [orphan, hparent, hid]

theorem Database.withoutTasks_nil (db : Database) : db.withoutTasks [] = db := by
  have horphan : orphan [] = id := by
    funext t
    unfold orphan
    cases t.parentIssueId <;> rfl
  simp [withoutTasks, horphan]

theorem Database.withoutTasks_cons (id : Uuid) (ids : List Uuid) (db : Database) :
    (db.withoutTasks [id]).withoutTasks ids = db.withoutTasks (id :: ids) := by
  unfold withoutTasks
  simp only [List.filter_map, List.map_map, List.filter_filter, Function.comp_def, orphan_id,
    orphan_orphan, List.contains_cons, List.contains_nil, Bool.or_false, Bool.not_or]
  congr 1
  all_goals grind

theorem deleteTask_ok {db db' : Database} {id : Uuid} :
    deleteTask db id = .ok db' ↔
      (id ∉ db.executions ∧ id ∉ db.prepared) ∧ db' = db.withoutTasks [id] := by
  have hne (x : Uuid) : decide (x ≠ id) = !([id].contains x) := by simp
  have hdelete : updateWhere (·.parentIssueId = some id) (fun t => { t with parentIssueId := none })
      (db.tasks.filter (·.id ≠ id)) = (db.tasks.filter fun t => !([id].contains t.id)).map
        (orphan [id]) := by
    simp only [hne, updateWhere]
    refine List.map_congr_left fun t _ => ?_
    unfold orphan
    cases t.parentIssueId <;> simp
  unfold deleteTask
  split_ifs with hused hprepared
  · rw [List.contains_iff_mem] at hused
    exact iff_of_false (fun herror => by cases herror) fun h => h.1.1 hused
  · rw [List.contains_iff_mem] at hprepared
    exact iff_of_false (fun herror => by cases herror) fun h => h.1.2 hprepared
  · rw [List.contains_iff_mem] at hused hprepared
    rw [and_iff_right ⟨hused, hprepared⟩, Except.ok.injEq, eq_comm, hdelete]
    simp only [hne, Database.withoutTasks]

/-- The deletions of tasks succeed when none of them is in use. -/
theorem deleteTasks_ok {ids : List Uuid} {db db' : Database} :
    ids.foldlM deleteTask db = .ok db' ↔
      (∀ id ∈ ids, id ∉ db.executions ∧ id ∉ db.prepared) ∧ db' = db.withoutTasks ids := by
  induction ids generalizing db with
  | nil =>
    rw [Database.withoutTasks_nil]
    simp [pure, Except.pure, eq_comm]
  | cons id ids ih =>
    rw [List.foldlM_cons, except_bind_iff]
    constructor
    · rintro ⟨middle, hfirst, hrest⟩
      obtain ⟨hid, rfl⟩ := deleteTask_ok.mp hfirst
      obtain ⟨hids, rfl⟩ := ih.mp hrest
      exact ⟨List.forall_mem_cons.mpr ⟨hid, hids⟩, Database.withoutTasks_cons id ids db⟩
    · rintro ⟨hall, rfl⟩
      obtain ⟨hid, hids⟩ := List.forall_mem_cons.mp hall
      refine ⟨db.withoutTasks [id], deleteTask_ok.mpr ⟨hid, rfl⟩, ih.mpr ⟨hids, ?_⟩⟩
      exact (Database.withoutTasks_cons id ids db).symm

theorem deleteStatuses_eq (ids : List Uuid) (db : Database) :
    ids.foldl deleteStatus db =
      { db with statuses := db.statuses.filter fun s => !ids.contains s.id } := by
  induction ids generalizing db with
  | nil => simp
  | cons id ids ih =>
    rw [List.foldl_cons, ih, deleteStatus]
    simp only [List.filter_filter]
    congr 2
    funext s
    simp [Bool.and_comm]

theorem deleteTags_eq (ids : List Uuid) (db : Database) :
    ids.foldl deleteTag db =
      { db with
        tags := db.tags.filter fun t => !ids.contains t.id
        taskTags := db.taskTags.filter fun r => !ids.contains r.tagId } := by
  induction ids generalizing db with
  | nil => simp
  | cons id ids ih =>
    rw [List.foldl_cons, ih, deleteTag]
    simp only [List.filter_filter]
    congr 2
    · funext t
      simp [Bool.and_comm]
    · funext r
      simp [Bool.and_comm]

end Deletes

/-- The ids of one kind of record are distinct. -/
structure ProjectDocument.DistinctIds (d : ProjectDocument) : Prop where
  statuses : (d.statuses.map (·.id)).Nodup
  tags : (d.tags.map (·.id)).Nodup
  tasks : (d.tasks.map (·.id)).Nodup
  taskTags : (d.taskTags.map (·.id)).Nodup
  taskAssignees : (d.taskAssignees.map (·.id)).Nodup
  taskFollowers : (d.taskFollowers.map (·.id)).Nodup
  taskRelationships : (d.taskRelationships.map (·.id)).Nodup

theorem ProjectDocument.Wellformed.distinctIds {d : ProjectDocument} (h : d.Wellformed) :
    d.DistinctIds := by
  have hids := h.ids
  unfold recordIds at hids
  have h₆ := hids.of_append_left
  have h₅ := h₆.of_append_left
  have h₄ := h₅.of_append_left
  have h₃ := h₄.of_append_left
  have h₂ := h₃.of_append_left
  exact ⟨h₂.of_append_left, h₂.of_append_right, h₃.of_append_right, h₄.of_append_right,
    h₅.of_append_right, h₆.of_append_right, hids.of_append_right⟩

/-- The primary keys of the projected tables. -/
structure Database.Keys (db : Database) : Prop where
  statuses : (db.statuses.map (·.id)).Nodup
  tags : (db.tags.map (·.id)).Nodup
  tasks : (db.tasks.map (·.id)).Nodup
  taskTags : (db.taskTags.map (·.id)).Nodup
  taskAssignees : (db.taskAssignees.map (·.id)).Nodup
  taskFollowers : (db.taskFollowers.map (·.id)).Nodup
  taskRelationships : (db.taskRelationships.map (·.id)).Nodup

/-- No record of the document has the id of a record of another project. -/
structure OwnIds (d : ProjectDocument) (db : Database) : Prop where
  statuses : ∀ r ∈ db.statuses, r.id ∈ d.statuses.map (·.id) → r.projectId = d.project.id
  tags : ∀ r ∈ db.tags, r.id ∈ d.tags.map (·.id) → r.projectId = d.project.id
  tasks : ∀ t ∈ db.tasks, t.id ∈ d.tasks.map (·.id) → t.projectId = d.project.id
  taskTags : ∀ r ∈ db.taskTags, r.id ∈ d.taskTags.map (·.id) →
    db.foreignTask d.project.id r.issueId = false
  taskAssignees : ∀ r ∈ db.taskAssignees, r.id ∈ d.taskAssignees.map (·.id) →
    db.foreignTask d.project.id r.issueId = false
  taskFollowers : ∀ r ∈ db.taskFollowers, r.id ∈ d.taskFollowers.map (·.id) →
    db.foreignTask d.project.id r.issueId = false
  taskRelationships : ∀ r ∈ db.taskRelationships, r.id ∈ d.taskRelationships.map (·.id) →
    db.foreignTask d.project.id r.issueId = false

/-- A task of the project that the document no longer has. -/
def Removed (d : ProjectDocument) (db : Database) (id : Uuid) : Prop :=
  id ∉ d.tasks.map (·.id) ∧ ∃ t ∈ db.tasks, t.id = id ∧ t.projectId = d.project.id

/-- A tag of the project that the document no longer has. -/
def RemovedTag (d : ProjectDocument) (db : Database) (id : Uuid) : Prop :=
  id ∉ d.tags.map (·.id) ∧ ∃ t ∈ db.tags, t.id = id ∧ t.projectId = d.project.id

/-- The rows of `w` are those of the document and, of `db`, those of the other projects; `gone` are
the ids of the tasks deleted on the way. -/
structure Written (d : ProjectDocument) (db w : Database) (gone : List Uuid) : Prop where
  gone_iff : ∀ id, id ∈ gone ↔ Removed d db id
  projects : w.projects.map (·.id) = db.projects.map (·.id)
  metadata : ∀ r ∈ w.metadata, r.projectId = d.project.id ∨
    r.projectId ∈ db.metadata.map (·.projectId)
  mounts : w.mounts = db.mounts
  executions : w.executions = db.executions
  prepared : w.prepared = db.prepared
  statuses : ∀ r, r ∈ w.statuses ↔
    r ∈ d.statuses ∨ (r ∈ db.statuses ∧ r.projectId ≠ d.project.id)
  tags : ∀ r, r ∈ w.tags ↔ r ∈ d.tags ∨ (r ∈ db.tags ∧ r.projectId ≠ d.project.id)
  tasks : ∀ t, t ∈ w.tasks ↔
    t ∈ d.tasks ∨ ∃ old ∈ db.tasks, old.projectId ≠ d.project.id ∧ t = orphan gone old
  taskTags : ∀ r, r ∈ w.taskTags ↔ r ∈ d.taskTags ∨ (r ∈ db.taskTags ∧
    r.id ∉ d.taskTags.map (·.id) ∧ r.issueId ∉ d.tasks.map (·.id) ∧
    db.ownsTask d.project.id r.issueId = false ∧ ¬ RemovedTag d db r.tagId)
  taskAssignees : ∀ r, r ∈ w.taskAssignees ↔ r ∈ d.taskAssignees ∨ (r ∈ db.taskAssignees ∧
    r.id ∉ d.taskAssignees.map (·.id) ∧ r.issueId ∉ d.tasks.map (·.id) ∧
    db.ownsTask d.project.id r.issueId = false)
  taskFollowers : ∀ r, r ∈ w.taskFollowers ↔ r ∈ d.taskFollowers ∨ (r ∈ db.taskFollowers ∧
    r.id ∉ d.taskFollowers.map (·.id) ∧ r.issueId ∉ d.tasks.map (·.id) ∧
    db.ownsTask d.project.id r.issueId = false)
  taskRelationships : ∀ r, r ∈ w.taskRelationships ↔
    r ∈ d.taskRelationships ∨ (r ∈ db.taskRelationships ∧
    r.id ∉ d.taskRelationships.map (·.id) ∧ r.issueId ∉ d.tasks.map (·.id) ∧
    db.ownsTask d.project.id r.issueId = false ∧ ¬ Removed d db r.relatedIssueId)
  keys : w.Keys

section Rewrite
variable {d : ProjectDocument} {db w : Database}

/-- The statements of `project_in` that write rows of the projected tables. -/
def rewrite (d : ProjectDocument) (db : Database) : Except ApiError Database := do
  let db ← upsertRecords d (updateProject d.project db)
  let db ← upsertAssociations d (clearAssociations d.project.id db)
  deleteMissing d db

theorem projectIn_ok {db' : Database} : projectIn d db = .ok db' ↔
    d.validate = .ok () ∧ ∃ w, rewrite d db = .ok w ∧ w.ForeignKeys ∧ db' = indexRevision d w := by
  unfold projectIn rewrite
  simp only [except_bind_iff, ensure_ok, Database.foreignKeyCheck_iff, pure, Except.pure,
    Except.ok.injEq]
  constructor
  · rintro ⟨_, hvalid, db₁, h₁, db₂, h₂, w, h₃, _, hkeys, rfl⟩
    exact ⟨hvalid, w, ⟨db₁, h₁, db₂, h₂, h₃⟩, hkeys, rfl⟩
  · rintro ⟨hvalid, w, ⟨db₁, h₁, db₂, h₂, h₃⟩, hkeys, rfl⟩
    exact ⟨(), hvalid, db₁, h₁, db₂, h₂, w, h₃, (), hkeys, rfl⟩

def missingTasks (d : ProjectDocument) (db : Database) : List Uuid :=
  (db.tasks.filter fun t => t.projectId = d.project.id && !d.hasTask t.id).map (·.id)

def missingStatuses (d : ProjectDocument) (db : Database) : List Uuid :=
  (db.statuses.filter fun s => s.projectId = d.project.id && !d.hasStatus s.id).map (·.id)

def missingTags (d : ProjectDocument) (db : Database) : List Uuid :=
  (db.tags.filter fun t => t.projectId = d.project.id && !d.hasTag t.id).map (·.id)

theorem deleteMissing_ok : deleteMissing d db = .ok w ↔
    (∀ id ∈ missingTasks d db, id ∉ db.executions ∧ id ∉ db.prepared) ∧
      w = { db.withoutTasks (missingTasks d db) with
        statuses := db.statuses.filter fun s => !(missingStatuses d db).contains s.id
        tags := db.tags.filter fun t => !(missingTags d db).contains t.id
        taskTags := (db.withoutTasks (missingTasks d db)).taskTags.filter fun r =>
          !(missingTags d db).contains r.tagId } := by
  unfold deleteMissing
  rw [except_bind_iff]
  constructor
  · rintro ⟨db₁, hdelete, heq⟩
    obtain ⟨hunused, rfl⟩ := deleteTasks_ok.mp hdelete
    refine ⟨hunused, (Except.ok.inj heq).symm.trans ?_⟩
    rw [deleteStatuses_eq, deleteTags_eq]
    rfl
  · rintro ⟨hunused, rfl⟩
    refine ⟨_, deleteTasks_ok.mpr ⟨hunused, rfl⟩, congrArg Except.ok ?_⟩
    rw [deleteStatuses_eq, deleteTags_eq]
    rfl

section Records
variable {ρ : Type} {key owner : ρ → Uuid} {clash : ρ → ρ → Bool} {project : Uuid}
  {rows table table' : List ρ} {missing : List Uuid}

/-- The keys of the project's rows that are not written again. -/
theorem missing_iff (hrows : (rows.map key).Nodup)
    (h : upsertAll key clash rows table = some table')
    (hmissing : ∀ k, k ∈ missing ↔
      ∃ r ∈ table', (owner r = project ∧ key r ∉ rows.map key) ∧ key r = k) (k : Uuid) :
    k ∈ missing ↔ k ∉ rows.map key ∧ ∃ r ∈ table, key r = k ∧ owner r = project := by
  rw [hmissing]
  constructor
  · rintro ⟨r, hr, ⟨howner, hnot⟩, rfl⟩
    rcases (mem_upsertAll hrows h).mp hr with hr | ⟨hr, _⟩
    · exact (hnot (List.mem_map_of_mem hr)).elim
    · exact ⟨hnot, r, hr, rfl, howner⟩
  · rintro ⟨hnot, r, hr, rfl, howner⟩
    exact ⟨r, (mem_upsertAll hrows h).mpr (Or.inr ⟨hr, hnot⟩), ⟨howner, hnot⟩, rfl⟩

/-- After the upserts and the deletion of what is missing, the project has the rows written and the
other projects have theirs. -/
theorem mem_records (hrows : (rows.map key).Nodup) (htable : (table.map key).Nodup)
    (hown : ∀ r ∈ table, key r ∈ rows.map key → owner r = project)
    (h : upsertAll key clash rows table = some table')
    (hmissing : ∀ k, k ∈ missing ↔
      k ∉ rows.map key ∧ ∃ r ∈ table, key r = k ∧ owner r = project) (r : ρ) :
    r ∈ table' ∧ key r ∉ missing ↔ r ∈ rows ∨ (r ∈ table ∧ owner r ≠ project) := by
  rw [mem_upsertAll hrows h, hmissing]
  constructor
  · rintro ⟨hr | ⟨hr, hnot⟩, hkept⟩
    · exact Or.inl hr
    · exact Or.inr ⟨hr, fun howner => hkept ⟨hnot, r, hr, rfl, howner⟩⟩
  · rintro (hr | ⟨hr, hother⟩)
    · exact ⟨Or.inl hr, fun hgone => hgone.1 (List.mem_map_of_mem hr)⟩
    · refine ⟨Or.inr ⟨hr, fun hkey => hother (hown r hr hkey)⟩, ?_⟩
      rintro ⟨_, r', hr', hkey, howner⟩
      obtain rfl := List.inj_on_of_nodup_map htable hr' hr hkey
      exact hother howner

end Records

/-- What the upserts of statuses, tags and tasks have done when all succeeded. -/
structure RecordsWritten (d : ProjectDocument) (db w : Database) : Prop where
  ownStatuses : ∀ r ∈ db.statuses, r.id ∈ d.statuses.map (·.id) → r.projectId = d.project.id
  statuses : upsertAll (·.id) noClash d.statuses db.statuses = some w.statuses
  ownTags : ∀ r ∈ db.tags, r.id ∈ d.tags.map (·.id) → r.projectId = d.project.id
  tags : upsertAll (·.id) noClash d.tags db.tags = some w.tags
  ownTasks : ∀ t ∈ db.tasks, t.id ∈ d.tasks.map (·.id) → t.projectId = d.project.id
  tasks : upsertAll (·.id) Task.clash d.tasks db.tasks = some w.tasks
  frame : w = { db with statuses := w.statuses, tags := w.tags, tasks := w.tasks }

theorem upsertRecords_ok (hd : d.DistinctIds) :
    upsertRecords d db = .ok w ↔ RecordsWritten d db w := by
  unfold upsertRecords
  simp only [except_bind_iff, upsertRows_ok hd.statuses, upsertRows_ok hd.tags,
    upsertRows_ok hd.tasks, decide_eq_false_iff_not, not_not, ne_eq, pure, Except.pure,
    Except.ok.injEq]
  constructor
  · rintro ⟨_, ⟨hownStatus, hstatuses⟩, _, ⟨hownTag, htags⟩, _, ⟨hownTask, htasks⟩, rfl⟩
    exact ⟨hownStatus, hstatuses, hownTag, htags, hownTask, htasks, rfl⟩
  · intro h
    exact ⟨_, ⟨h.ownStatuses, h.statuses⟩, _, ⟨h.ownTags, h.tags⟩, _, ⟨h.ownTasks, h.tasks⟩,
      h.frame.symm⟩

/-- What the upserts of the associations have done when all succeeded. -/
structure AssociationsWritten (d : ProjectDocument) (db w : Database) : Prop where
  ownTaskTags : ∀ r ∈ db.taskTags, r.id ∈ d.taskTags.map (·.id) →
    db.foreignTask d.project.id r.issueId = false
  taskTags : upsertAll (·.id) TaskTag.clash d.taskTags db.taskTags = some w.taskTags
  ownTaskAssignees : ∀ r ∈ db.taskAssignees, r.id ∈ d.taskAssignees.map (·.id) →
    db.foreignTask d.project.id r.issueId = false
  taskAssignees : upsertAll (·.id) TaskAssignee.clash d.taskAssignees db.taskAssignees
    = some w.taskAssignees
  ownTaskFollowers : ∀ r ∈ db.taskFollowers, r.id ∈ d.taskFollowers.map (·.id) →
    db.foreignTask d.project.id r.issueId = false
  taskFollowers : upsertAll (·.id) TaskFollower.clash d.taskFollowers db.taskFollowers
    = some w.taskFollowers
  ownTaskRelationships : ∀ r ∈ db.taskRelationships, r.id ∈ d.taskRelationships.map (·.id) →
    db.foreignTask d.project.id r.issueId = false
  taskRelationships : upsertAll (·.id) noClash d.taskRelationships db.taskRelationships
    = some w.taskRelationships
  frame : w = { db with
    taskTags := w.taskTags
    taskAssignees := w.taskAssignees
    taskFollowers := w.taskFollowers
    taskRelationships := w.taskRelationships }

theorem upsertAssociations_ok (hd : d.DistinctIds) :
    upsertAssociations d db = .ok w ↔ AssociationsWritten d db w := by
  unfold upsertAssociations
  simp only [except_bind_iff, upsertRows_ok hd.taskTags, upsertRows_ok hd.taskAssignees,
    upsertRows_ok hd.taskFollowers, upsertRows_ok hd.taskRelationships, pure, Except.pure,
    Except.ok.injEq]
  constructor
  · rintro ⟨_, ⟨hownTag, htags⟩, _, ⟨hownAssignee, hassignees⟩, _, ⟨hownFollower, hfollowers⟩, _,
      ⟨hownRelated, hrelated⟩, rfl⟩
    exact ⟨hownTag, htags, hownAssignee, hassignees, hownFollower, hfollowers, hownRelated,
      hrelated, rfl⟩
  · intro h
    exact ⟨_, ⟨h.ownTaskTags, h.taskTags⟩, _, ⟨h.ownTaskAssignees, h.taskAssignees⟩, _,
      ⟨h.ownTaskFollowers, h.taskFollowers⟩, _, ⟨h.ownTaskRelationships, h.taskRelationships⟩,
      h.frame.symm⟩

theorem Database.ownsTask_iff {project id : Uuid} :
    db.ownsTask project id = true ↔ ∃ t ∈ db.tasks, t.id = id ∧ t.projectId = project := by
  simp only [ownsTask, List.any_eq_true, Bool.and_eq_true, decide_eq_true_eq]

theorem Database.foreignTask_iff {project id : Uuid} :
    db.foreignTask project id = true ↔ ∃ t ∈ db.tasks, t.id = id ∧ t.projectId ≠ project := by
  simp only [foreignTask, List.any_eq_true, Bool.and_eq_true, decide_eq_true_eq]

/-- After the upserts the project owns the tasks of the document besides those it had. -/
theorem RecordsWritten.ownsTask (hd : d.Wellformed) (h : RecordsWritten d db w) {id : Uuid} :
    w.ownsTask d.project.id id = true ↔
      id ∈ d.tasks.map (·.id) ∨ db.ownsTask d.project.id id = true := by
  rw [Database.ownsTask_iff, Database.ownsTask_iff]
  have hmem := fun t => mem_upsertAll (r := t) hd.distinctIds.tasks h.tasks
  constructor
  · rintro ⟨t, ht, rfl, hproject⟩
    rcases (hmem t).mp ht with ht | ⟨ht, _⟩
    · exact Or.inl (List.mem_map_of_mem ht)
    · exact Or.inr ⟨t, ht, rfl, hproject⟩
  · intro hid
    by_cases hin : id ∈ d.tasks.map (·.id)
    · obtain ⟨t, ht, rfl⟩ := List.mem_map.mp hin
      exact ⟨t, (hmem t).mpr (Or.inl ht), rfl, hd.taskProject t ht⟩
    · obtain ⟨t, ht, rfl, hproject⟩ := hid.resolve_left hin
      exact ⟨t, (hmem t).mpr (Or.inr ⟨ht, hin⟩), rfl, hproject⟩

/-- The upserts take no task from another project. -/
theorem RecordsWritten.foreignTask (hd : d.Wellformed) (h : RecordsWritten d db w) {id : Uuid} :
    w.foreignTask d.project.id id = db.foreignTask d.project.id id := by
  rw [Bool.eq_iff_iff, Database.foreignTask_iff, Database.foreignTask_iff]
  have hmem := fun t => mem_upsertAll (r := t) hd.distinctIds.tasks h.tasks
  constructor
  · rintro ⟨t, ht, rfl, hproject⟩
    rcases (hmem t).mp ht with ht | ⟨ht, _⟩
    · exact (hproject (hd.taskProject t ht)).elim
    · exact ⟨t, ht, rfl, hproject⟩
  · rintro ⟨t, ht, rfl, hproject⟩
    exact ⟨t, (hmem t).mpr (Or.inr ⟨ht, fun hid => hproject (h.ownTasks t ht hid)⟩), rfl, hproject⟩

/-- No task takes a number or simple id that SQL still shows for another task when its turn comes,
no two associations are the same, and no removed task is held by a main session. -/
structure Placeable (d : ProjectDocument) (db : Database) : Prop where
  tasks : Fits (·.id) Task.clash d.tasks db.tasks
  taskTags : d.taskTags.Pairwise fun a b => a.clash b = false
  taskAssignees : d.taskAssignees.Pairwise fun a b => a.clash b = false
  taskFollowers : d.taskFollowers.Pairwise fun a b => a.clash b = false
  prepared : ∀ id, Removed d db id → id ∉ db.prepared

theorem mem_missing {ρ : Type} {key : ρ → Uuid} {keep : ρ → Bool} {owner : ρ → Uuid}
    {project : Uuid} {rows table : List ρ} (hkeep : ∀ r, keep r = true ↔ key r ∈ rows.map key)
    (k : Uuid) :
    k ∈ (table.filter fun r => owner r = project && !keep r).map key ↔
      ∃ r ∈ table, (owner r = project ∧ key r ∉ rows.map key) ∧ key r = k := by
  simp only [List.mem_map, List.mem_filter, Bool.and_eq_true, decide_eq_true_eq,
    Bool.not_eq_true', and_assoc, ← Bool.not_eq_true, hkeep]

theorem mem_withoutTasks {gone : List Uuid} {t : Task} :
    t ∈ (db.withoutTasks gone).tasks ↔ ∃ old ∈ db.tasks, old.id ∉ gone ∧ t = orphan gone old := by
  simp only [Database.withoutTasks, List.mem_map, List.mem_filter, Bool.not_eq_true',
    List.contains_eq_mem, decide_eq_false_iff_not, and_assoc]
  simp only [@eq_comm Task t]

theorem orphan_of_kept {gone : List Uuid} {t : Task}
    (h : ∀ parent, t.parentIssueId = some parent → parent ∉ gone) : orphan gone t = t := by
  unfold orphan
  rw [if_neg]
  rw [Option.any_eq_true]
  rintro ⟨parent, hparent, hgone⟩
  exact h parent hparent (List.contains_iff_mem.mp hgone)

/-- The associations after the deletion of the project's old ones, the upserts and the deletion of
its removed tasks. -/
theorem mem_associations {ρ : Type} {key issue : ρ → Uuid} {clash : ρ → ρ → Bool}
    {rows table table' : List ρ} {gone : List Uuid} (hrows : (rows.map key).Nodup)
    (hissue : ∀ r ∈ rows, issue r ∈ d.tasks.map (·.id))
    (howned : ∀ id, w.ownsTask d.project.id id = true ↔
      id ∈ d.tasks.map (·.id) ∨ db.ownsTask d.project.id id = true)
    (hgone : ∀ id, id ∈ gone ↔ Removed d db id)
    (h : upsertAll key clash rows (table.filter fun r => !w.ownsTask d.project.id (issue r))
      = some table') (r : ρ) :
    r ∈ table' ∧ issue r ∉ gone ↔ r ∈ rows ∨ (r ∈ table ∧ key r ∉ rows.map key ∧
      issue r ∉ d.tasks.map (·.id) ∧ db.ownsTask d.project.id (issue r) = false) := by
  have hkept : (!w.ownsTask d.project.id (issue r)) = true ↔
      issue r ∉ d.tasks.map (·.id) ∧ db.ownsTask d.project.id (issue r) = false := by
    rw [Bool.not_eq_true', ← Bool.not_eq_true, howned, not_or, Bool.not_eq_true]
  rw [mem_upsertAll hrows h, List.mem_filter, hkept, hgone]
  constructor
  · rintro ⟨hr | ⟨⟨hr, hother⟩, hkey⟩, _⟩
    · exact Or.inl hr
    · exact Or.inr ⟨hr, hkey, hother⟩
  · rintro (hr | ⟨hr, hkey, hother⟩)
    · exact ⟨Or.inl hr, fun hremoved => hremoved.1 (hissue r hr)⟩
    · refine ⟨Or.inr ⟨⟨hr, hother⟩, hkey⟩, ?_⟩
      rintro ⟨_, howner⟩
      rw [← Database.ownsTask_iff, hother.2] at howner
      cases howner

theorem nodup_filter_key {ρ : Type} {key : ρ → Uuid} {table : List ρ} (keep : ρ → Bool)
    (h : (table.map key).Nodup) : ((table.filter keep).map key).Nodup :=
  h.sublist (List.filter_sublist.map key)

theorem kept_iff {A D O K : Prop} (h : A ↔ D ∨ O) (hD : D → K) : A ∧ K ↔ D ∨ (O ∧ K) := by
  tauto

theorem updateProject_ids (project : Project) (db : Database) :
    (updateProject project db).projects.map (·.id) = db.projects.map (·.id) := by
  unfold updateProject
  dsimp only
  apply map_updateWhere
  intro r
  rfl

theorem updateProject_metadata {project : Project} {r : MetadataRow}
    (h : r ∈ (updateProject project db).metadata) :
    r.projectId = project.id ∨ r.projectId ∈ db.metadata.map (·.projectId) := by
  unfold updateProject at h
  split_ifs at h
  · rcases mem_updateWhere.mp h with ⟨old, hold, _, rfl⟩ | ⟨hr, _⟩
    · exact Or.inr (List.mem_map.mpr ⟨old, hold, rfl⟩)
    · exact Or.inr (List.mem_map_of_mem hr)
  · rcases List.mem_append.mp h with hr | hr
    · exact Or.inr (List.mem_map_of_mem hr)
    · rw [List.mem_singleton.mp hr]
      exact Or.inl rfl

/-- The tasks that are left: those of the document lose no parent. -/
theorem tasks_written {tasks : List Task} {gone : List Uuid} (hd : d.Wellformed)
    (hgone : ∀ id, id ∈ gone ↔ Removed d db id)
    (hrows : ∀ t, t ∈ tasks ∧ t.id ∉ gone ↔
      t ∈ d.tasks ∨ (t ∈ db.tasks ∧ t.projectId ≠ d.project.id)) (t : Task) :
    (∃ old ∈ tasks, old.id ∉ gone ∧ t = orphan gone old) ↔
      t ∈ d.tasks ∨ ∃ old ∈ db.tasks, old.projectId ≠ d.project.id ∧ t = orphan gone old := by
  have hkept : ∀ t ∈ d.tasks, orphan gone t = t := by
    intro t ht
    refine orphan_of_kept fun parent hparent hmem => ?_
    exact ((hgone parent).mp hmem).1 (hd.taskParent t ht parent hparent)
  constructor
  · rintro ⟨old, hold, hid, rfl⟩
    rcases (hrows old).mp ⟨hold, hid⟩ with hin | ⟨hin, hother⟩
    · rw [hkept old hin]
      exact Or.inl hin
    · exact Or.inr ⟨old, hin, hother, rfl⟩
  · rintro (ht | ⟨old, hold, hother, rfl⟩)
    · obtain ⟨hin, hid⟩ := (hrows t).mpr (Or.inl ht)
      exact ⟨t, hin, hid, (hkept t ht).symm⟩
    · obtain ⟨hin, hid⟩ := (hrows old).mpr (Or.inr ⟨hold, hother⟩)
      exact ⟨old, hin, hid, rfl⟩

/-- The databases a successful rewrite passes through: `db₁` after the records, `db₂` after the
associations and `w` after the deletions. -/
structure Stages (d : ProjectDocument) (db db₁ db₂ w : Database) : Prop where
  records : RecordsWritten d (updateProject d.project db) db₁
  associations : AssociationsWritten d (clearAssociations d.project.id db₁) db₂
  unused : ∀ id ∈ missingTasks d db₂, id ∉ db₂.executions ∧ id ∉ db₂.prepared
  result : w = { db₂.withoutTasks (missingTasks d db₂) with
    statuses := db₂.statuses.filter fun s => !(missingStatuses d db₂).contains s.id
    tags := db₂.tags.filter fun t => !(missingTags d db₂).contains t.id
    taskTags := (db₂.withoutTasks (missingTasks d db₂)).taskTags.filter fun r =>
      !(missingTags d db₂).contains r.tagId }

theorem rewrite_ok (hd : d.DistinctIds) :
    rewrite d db = .ok w ↔ ∃ db₁ db₂, Stages d db db₁ db₂ w := by
  unfold rewrite
  simp only [except_bind_iff, upsertRecords_ok hd, upsertAssociations_ok hd, deleteMissing_ok]
  constructor
  · rintro ⟨db₁, h₁, db₂, h₂, hunused, hw⟩
    exact ⟨db₁, db₂, h₁, h₂, hunused, hw⟩
  · rintro ⟨db₁, db₂, h₁, h₂, hunused, hw⟩
    exact ⟨db₁, h₁, db₂, h₂, hunused, hw⟩

namespace Stages
variable {db₁ db₂ : Database} (hd : d.Wellformed) (h : Stages d db db₁ db₂ w)

/-- The records are not touched after `db₁`. -/
theorem records_eq (h : Stages d db db₁ db₂ w) :
    db₂.statuses = db₁.statuses ∧ db₂.tags = db₁.tags ∧ db₂.tasks = db₁.tasks := by
  rw [h.associations.frame]
  exact ⟨rfl, rfl, rfl⟩

/-- The associations are not touched before `db₁`. -/
theorem associations_eq (h : Stages d db db₁ db₂ w) :
    db₁.taskTags = db.taskTags ∧ db₁.taskAssignees = db.taskAssignees ∧
      db₁.taskFollowers = db.taskFollowers ∧ db₁.taskRelationships = db.taskRelationships := by
  rw [h.records.frame]
  exact ⟨rfl, rfl, rfl, rfl⟩

/-- The tables that the document says nothing about. -/
theorem others_eq (h : Stages d db db₁ db₂ w) :
    db₂.projects = (updateProject d.project db).projects ∧
      db₂.metadata = (updateProject d.project db).metadata ∧ db₂.mounts = db.mounts ∧
      db₂.executions = db.executions ∧ db₂.prepared = db.prepared := by
  rw [h.associations.frame, h.records.frame]
  exact ⟨rfl, rfl, rfl, rfl, rfl⟩

include hd h

theorem gone_iff (id : Uuid) : id ∈ missingTasks d db₂ ↔ Removed d db id := by
  unfold missingTasks Removed
  rw [h.records_eq.2.2]
  exact missing_iff hd.distinctIds.tasks h.records.tasks
    (mem_missing fun _ => ProjectDocument.hasTask_iff) id

theorem goneStatus_iff (id : Uuid) : id ∈ missingStatuses d db₂ ↔
    id ∉ d.statuses.map (·.id) ∧ ∃ s ∈ db.statuses, s.id = id ∧ s.projectId = d.project.id := by
  unfold missingStatuses
  rw [h.records_eq.1]
  exact missing_iff hd.distinctIds.statuses h.records.statuses
    (mem_missing fun _ => ProjectDocument.hasStatus_iff) id

theorem goneTag_iff (id : Uuid) : id ∈ missingTags d db₂ ↔ RemovedTag d db id := by
  unfold missingTags RemovedTag
  rw [h.records_eq.2.1]
  exact missing_iff hd.distinctIds.tags h.records.tags
    (mem_missing fun _ => ProjectDocument.hasTag_iff) id

theorem placeable : Placeable d db where
  tasks := (upsertAll_isSome hd.distinctIds.tasks).mp ⟨_, h.records.tasks⟩
  taskTags := ((upsertAll_isSome hd.distinctIds.taskTags).mp ⟨_, h.associations.taskTags⟩).1
  taskAssignees :=
    ((upsertAll_isSome hd.distinctIds.taskAssignees).mp ⟨_, h.associations.taskAssignees⟩).1
  taskFollowers :=
    ((upsertAll_isSome hd.distinctIds.taskFollowers).mp ⟨_, h.associations.taskFollowers⟩).1
  prepared := by
    intro id hremoved
    rw [← h.others_eq.2.2.2.2]
    exact (h.unused id ((h.gone_iff hd id).mpr hremoved)).2

/-- The project's old associations are gone, and those of removed tasks. -/
theorem ownsTask_iff (id : Uuid) : db₁.ownsTask d.project.id id = true ↔
    id ∈ d.tasks.map (·.id) ∨ db.ownsTask d.project.id id = true := h.records.ownsTask hd

theorem mem_taskTags (r : TaskTag) : r ∈ w.taskTags ↔ r ∈ d.taskTags ∨ (r ∈ db.taskTags ∧
    r.id ∉ d.taskTags.map (·.id) ∧ r.issueId ∉ d.tasks.map (·.id) ∧
    db.ownsTask d.project.id r.issueId = false ∧ ¬ RemovedTag d db r.tagId) := by
  have hrows := mem_associations hd.distinctIds.taskTags (fun r hr => (hd.tagged r hr).1)
    (h.ownsTask_iff hd) (h.gone_iff hd) h.associations.taskTags r
  rw [h.associations_eq.1] at hrows
  have hkept (hr : r ∈ d.taskTags) : r.tagId ∉ missingTags d db₂ :=
    fun hmem => ((h.goneTag_iff hd _).mp hmem).1 (hd.tagged r hr).2
  have hboth := kept_iff hrows hkept
  rw [h.goneTag_iff hd] at hboth
  simp only [and_assoc] at hboth
  rw [← hboth, ← h.goneTag_iff hd, h.result]
  simp only [Database.withoutTasks, List.mem_filter, Bool.not_eq_true', List.contains_eq_mem,
    decide_eq_false_iff_not, and_assoc]

theorem mem_taskAssignees (r : TaskAssignee) : r ∈ w.taskAssignees ↔
    r ∈ d.taskAssignees ∨ (r ∈ db.taskAssignees ∧ r.id ∉ d.taskAssignees.map (·.id) ∧
    r.issueId ∉ d.tasks.map (·.id) ∧ db.ownsTask d.project.id r.issueId = false) := by
  have hrows := mem_associations hd.distinctIds.taskAssignees hd.assigned
    (h.ownsTask_iff hd) (h.gone_iff hd) h.associations.taskAssignees r
  rw [h.associations_eq.2.1] at hrows
  rw [← hrows, h.result]
  simp [Database.withoutTasks, List.mem_filter]

theorem mem_taskFollowers (r : TaskFollower) : r ∈ w.taskFollowers ↔
    r ∈ d.taskFollowers ∨ (r ∈ db.taskFollowers ∧ r.id ∉ d.taskFollowers.map (·.id) ∧
    r.issueId ∉ d.tasks.map (·.id) ∧ db.ownsTask d.project.id r.issueId = false) := by
  have hrows := mem_associations hd.distinctIds.taskFollowers hd.followed
    (h.ownsTask_iff hd) (h.gone_iff hd) h.associations.taskFollowers r
  rw [h.associations_eq.2.2.1] at hrows
  rw [← hrows, h.result]
  simp [Database.withoutTasks, List.mem_filter]

theorem mem_taskRelationships (r : TaskRelationship) : r ∈ w.taskRelationships ↔
    r ∈ d.taskRelationships ∨ (r ∈ db.taskRelationships ∧
    r.id ∉ d.taskRelationships.map (·.id) ∧ r.issueId ∉ d.tasks.map (·.id) ∧
    db.ownsTask d.project.id r.issueId = false ∧ ¬ Removed d db r.relatedIssueId) := by
  have hrows := mem_associations hd.distinctIds.taskRelationships (fun r hr => (hd.related r hr).1)
    (h.ownsTask_iff hd) (h.gone_iff hd) h.associations.taskRelationships r
  rw [h.associations_eq.2.2.2] at hrows
  have hkept (hr : r ∈ d.taskRelationships) : r.relatedIssueId ∉ missingTasks d db₂ :=
    fun hmem => ((h.gone_iff hd _).mp hmem).1 (hd.related r hr).2
  have hboth := kept_iff hrows hkept
  rw [h.gone_iff hd r.relatedIssueId] at hboth
  simp only [and_assoc] at hboth
  rw [← hboth, ← h.gone_iff hd r.relatedIssueId, h.result]
  simp [Database.withoutTasks, List.mem_filter]

variable (hkeys : db.Keys)

include hkeys

theorem mem_statuses (r : ProjectStatus) : r ∈ w.statuses ↔
    r ∈ d.statuses ∨ (r ∈ db.statuses ∧ r.projectId ≠ d.project.id) := by
  rw [← mem_records hd.distinctIds.statuses hkeys.statuses h.records.ownStatuses h.records.statuses
    (h.goneStatus_iff hd) r, ← h.records_eq.1, h.result]
  simp [List.mem_filter]

theorem mem_tags (r : Tag) : r ∈ w.tags ↔
    r ∈ d.tags ∨ (r ∈ db.tags ∧ r.projectId ≠ d.project.id) := by
  rw [← mem_records hd.distinctIds.tags hkeys.tags h.records.ownTags h.records.tags
    (h.goneTag_iff hd) r, ← h.records_eq.2.1, h.result]
  simp [List.mem_filter]

theorem mem_tasks (t : Task) : t ∈ w.tasks ↔ t ∈ d.tasks ∨
    ∃ old ∈ db.tasks, old.projectId ≠ d.project.id ∧ t = orphan (missingTasks d db₂) old := by
  rw [h.result]
  refine mem_withoutTasks.trans ?_
  rw [h.records_eq.2.2]
  exact tasks_written hd (h.gone_iff hd)
    (mem_records hd.distinctIds.tasks hkeys.tasks h.records.ownTasks h.records.tasks
      (h.gone_iff hd)) t

omit hd in
theorem keys : w.Keys := by
  have hcleared {ρ : Type} {key issue : ρ → Uuid} {table : List ρ} (hnodup : (table.map key).Nodup) :
      ((table.filter fun r => !db₁.ownsTask d.project.id (issue r)).map key).Nodup :=
    nodup_filter_key _ hnodup
  rw [h.result]
  constructor
  case statuses =>
    refine nodup_filter_key _ ?_
    rw [h.records_eq.1]
    exact nodup_upsertAll hkeys.statuses h.records.statuses
  case tags =>
    refine nodup_filter_key _ ?_
    rw [h.records_eq.2.1]
    exact nodup_upsertAll hkeys.tags h.records.tags
  case tasks =>
    change (((db₂.tasks.filter _).map (orphan _)).map (·.id)).Nodup
    simp only [List.map_map, Function.comp_def, orphan_id, h.records_eq.2.2]
    exact nodup_filter_key _ (nodup_upsertAll hkeys.tasks h.records.tasks)
  case taskTags =>
    have htable := hkeys.taskTags
    rw [← h.associations_eq.1] at htable
    exact nodup_filter_key _ (nodup_filter_key _
      (nodup_upsertAll (hcleared htable) h.associations.taskTags))
  case taskAssignees =>
    have htable := hkeys.taskAssignees
    rw [← h.associations_eq.2.1] at htable
    exact nodup_filter_key _ (nodup_upsertAll (hcleared htable) h.associations.taskAssignees)
  case taskFollowers =>
    have htable := hkeys.taskFollowers
    rw [← h.associations_eq.2.2.1] at htable
    exact nodup_filter_key _ (nodup_upsertAll (hcleared htable) h.associations.taskFollowers)
  case taskRelationships =>
    have htable := hkeys.taskRelationships
    rw [← h.associations_eq.2.2.2] at htable
    exact nodup_filter_key _ (nodup_upsertAll (hcleared htable) h.associations.taskRelationships)

/-- What the statements of `project_in` have done when all succeeded. -/
theorem written : Written d db w (missingTasks d db₂) := by
  obtain ⟨hprojects, hmetadata, hmounts, hexecutions, hprepared⟩ := h.others_eq
  have hresult : w.projects = db₂.projects ∧ w.metadata = db₂.metadata ∧ w.mounts = db₂.mounts ∧
      w.executions = db₂.executions ∧ w.prepared = db₂.prepared := by
    rw [h.result]
    exact ⟨rfl, rfl, rfl, rfl, rfl⟩
  constructor
  case gone_iff => exact h.gone_iff hd
  case projects => rw [hresult.1, hprojects, updateProject_ids]
  case metadata =>
    rw [hresult.2.1, hmetadata]
    exact fun r => updateProject_metadata
  case mounts => rw [hresult.2.2.1, hmounts]
  case executions => rw [hresult.2.2.2.1, hexecutions]
  case prepared => rw [hresult.2.2.2.2, hprepared]
  case statuses => exact h.mem_statuses hd hkeys
  case tags => exact h.mem_tags hd hkeys
  case tasks => exact h.mem_tasks hd hkeys
  case taskTags => exact h.mem_taskTags hd
  case taskAssignees => exact h.mem_taskAssignees hd
  case taskFollowers => exact h.mem_taskFollowers hd
  case taskRelationships => exact h.mem_taskRelationships hd
  case keys => exact h.keys hkeys

end Stages

section Existence

theorem TaskTag.issueId_of_clash (a b : TaskTag) (h : a.clash b = true) :
    a.issueId = b.issueId := by
  simp only [clash, Bool.and_eq_true, decide_eq_true_eq] at h
  exact h.1

theorem TaskAssignee.issueId_of_clash (a b : TaskAssignee) (h : a.clash b = true) :
    a.issueId = b.issueId := by
  simp only [clash, Bool.and_eq_true, decide_eq_true_eq] at h
  exact h.1

theorem TaskFollower.issueId_of_clash (a b : TaskFollower) (h : a.clash b = true) :
    a.issueId = b.issueId := by
  simp only [clash, Bool.and_eq_true, decide_eq_true_eq] at h
  exact h.1

theorem fits_noClash {ρ : Type} {key : ρ → Uuid} (rows table : List ρ) :
    Fits key noClash rows table := by
  refine ⟨List.pairwise_iff_forall_sublist.mpr fun _ => rfl, ?_⟩
  intro _ _ _ _ _ _ hclash
  cases hclash

/-- Rows of other tasks do not clash with the associations of the document. -/
theorem fits_associations {ρ : Type} {key issue : ρ → Uuid} {clash : ρ → ρ → Bool}
    {rows table : List ρ} (hissue : ∀ r ∈ rows, issue r ∈ d.tasks.map (·.id))
    (hclash : ∀ a b, clash a b = true → issue a = issue b)
    (howned : ∀ id ∈ d.tasks.map (·.id), w.ownsTask d.project.id id = true)
    (hpair : rows.Pairwise fun a b => clash a b = false) :
    Fits key clash rows (table.filter fun r => !w.ownsTask d.project.id (issue r)) := by
  refine ⟨hpair, ?_⟩
  intro before row after hrows r hr hboth
  have hrow : row ∈ rows := by rw [hrows]; simp
  have hnot := (List.mem_filter.mp hr).2
  rw [hclash r row hboth, howned _ (hissue row hrow)] at hnot
  cases hnot

variable (hd : d.Wellformed) (hown : OwnIds d db) (hplace : Placeable d db)

include hd hown hplace

theorem exists_records : ∃ db₁, RecordsWritten d (updateProject d.project db) db₁ := by
  have hids := hd.distinctIds
  obtain ⟨statuses, hstatuses⟩ :=
    (upsertAll_isSome hids.statuses).mpr (fits_noClash d.statuses db.statuses)
  obtain ⟨tags, htags⟩ := (upsertAll_isSome hids.tags).mpr (fits_noClash d.tags db.tags)
  obtain ⟨tasks, htasks⟩ := (upsertAll_isSome hids.tasks).mpr hplace.tasks
  exact ⟨{ updateProject d.project db with statuses, tags, tasks },
    hown.statuses, hstatuses, hown.tags, htags, hown.tasks, htasks, rfl⟩

theorem exists_associations {db₁ : Database}
    (h : RecordsWritten d (updateProject d.project db) db₁) :
    ∃ db₂, AssociationsWritten d (clearAssociations d.project.id db₁) db₂ := by
  have hids := hd.distinctIds
  have howned : ∀ id ∈ d.tasks.map (·.id), db₁.ownsTask d.project.id id = true :=
    fun id hid => (h.ownsTask hd).mpr (Or.inl hid)
  have hforeign (id : Uuid) : (clearAssociations d.project.id db₁).foreignTask d.project.id id
      = db.foreignTask d.project.id id := h.foreignTask hd
  have hframe : db₁.taskTags = db.taskTags ∧ db₁.taskAssignees = db.taskAssignees ∧
      db₁.taskFollowers = db.taskFollowers ∧ db₁.taskRelationships = db.taskRelationships := by
    rw [h.frame]
    exact ⟨rfl, rfl, rfl, rfl⟩
  obtain ⟨htags, hassignees, hfollowers, hrelated⟩ := hframe
  have hfitTags : Fits (·.id) TaskTag.clash d.taskTags
      (clearAssociations d.project.id db₁).taskTags :=
    fits_associations (fun r hr => (hd.tagged r hr).1) TaskTag.issueId_of_clash howned
      hplace.taskTags
  have hfitAssignees : Fits (·.id) TaskAssignee.clash d.taskAssignees
      (clearAssociations d.project.id db₁).taskAssignees :=
    fits_associations hd.assigned TaskAssignee.issueId_of_clash howned hplace.taskAssignees
  have hfitFollowers : Fits (·.id) TaskFollower.clash d.taskFollowers
      (clearAssociations d.project.id db₁).taskFollowers :=
    fits_associations hd.followed TaskFollower.issueId_of_clash howned hplace.taskFollowers
  have hfitRelated : Fits (·.id) noClash d.taskRelationships
      (clearAssociations d.project.id db₁).taskRelationships := fits_noClash _ _
  obtain ⟨taskTags, htaskTags⟩ := (upsertAll_isSome hids.taskTags).mpr hfitTags
  obtain ⟨taskAssignees, htaskAssignees⟩ :=
    (upsertAll_isSome hids.taskAssignees).mpr hfitAssignees
  obtain ⟨taskFollowers, htaskFollowers⟩ :=
    (upsertAll_isSome hids.taskFollowers).mpr hfitFollowers
  obtain ⟨taskRelationships, htaskRelationships⟩ :=
    (upsertAll_isSome hids.taskRelationships).mpr hfitRelated
  refine ⟨{ clearAssociations d.project.id db₁ with
    taskTags, taskAssignees, taskFollowers, taskRelationships }, ?_, htaskTags, ?_,
    htaskAssignees, ?_, htaskFollowers, ?_, htaskRelationships, rfl⟩
  · intro r hr hid
    rw [hforeign]
    exact hown.taskTags r (htags ▸ (List.mem_filter.mp hr).1) hid
  · intro r hr hid
    rw [hforeign]
    exact hown.taskAssignees r (hassignees ▸ (List.mem_filter.mp hr).1) hid
  · intro r hr hid
    rw [hforeign]
    exact hown.taskFollowers r (hfollowers ▸ (List.mem_filter.mp hr).1) hid
  · intro r hr hid
    rw [hforeign]
    exact hown.taskRelationships r (hrelated ▸ (List.mem_filter.mp hr).1) hid

/-- The statements all succeed when the ids are the project's own, nothing clashes and no removed
task is in use. -/
theorem exists_stages (hunused : ∀ id, Removed d db id → id ∉ db.executions) :
    ∃ db₁ db₂ w, Stages d db db₁ db₂ w := by
  obtain ⟨db₁, h₁⟩ := exists_records hd hown hplace
  obtain ⟨db₂, h₂⟩ := exists_associations hd hown hplace h₁
  refine ⟨db₁, db₂, _, h₁, h₂, ?_, rfl⟩
  intro id hid
  have htasks : db₂.tasks = db₁.tasks := by rw [h₂.frame]; rfl
  have hothers : db₂.executions = db.executions ∧ db₂.prepared = db.prepared := by
    rw [h₂.frame, h₁.frame]
    exact ⟨rfl, rfl⟩
  unfold missingTasks at hid
  rw [htasks] at hid
  have hremoved : Removed d db id := (missing_iff hd.distinctIds.tasks h₁.tasks
    (mem_missing fun _ => ProjectDocument.hasTask_iff) id).mp hid
  rw [hothers.1, hothers.2]
  exact ⟨hunused id hremoved, hplace.prepared id hremoved⟩

end Existence

end Rewrite

end VibeKanban.ProjectStore
