import VibeKanban.ProjectStore.Stages

/-! When `project_in` succeeds, and that the rows of the project then equal the document. -/
namespace VibeKanban.ProjectStore
open Lib

/-- The rows of the project are exactly the records of the document. -/
structure Database.Shows (db : Database) (d : ProjectDocument) : Prop where
  statuses : (db.statuses.filter (·.projectId = d.project.id)).Perm d.statuses
  tags : (db.tags.filter (·.projectId = d.project.id)).Perm d.tags
  tasks : (db.tasks.filter (·.projectId = d.project.id)).Perm d.tasks
  taskTags : (db.taskTags.filter (db.ownsTask d.project.id ·.issueId)).Perm d.taskTags
  taskAssignees :
    (db.taskAssignees.filter (db.ownsTask d.project.id ·.issueId)).Perm d.taskAssignees
  taskFollowers :
    (db.taskFollowers.filter (db.ownsTask d.project.id ·.issueId)).Perm d.taskFollowers
  taskRelationships :
    (db.taskRelationships.filter (db.ownsTask d.project.id ·.issueId)).Perm d.taskRelationships

/-- A database as the constraints of its tables keep it, in which the rows of every project with
tasks came from a valid document. -/
structure Database.Sound (db : Database) : Prop where
  keys : db.Keys
  foreignKeys : db.ForeignKeys
  origin : ∀ t ∈ db.tasks, ∃ d : ProjectDocument,
    d.validate = .ok () ∧ d.project.id = t.projectId ∧ db.Shows d

/-- Every task has a status of its own project. -/
theorem Database.Sound.taskStatus {db : Database} (h : db.Sound) {t : Task} (ht : t ∈ db.tasks) :
    ∃ s ∈ db.statuses, s.id = t.statusId ∧ s.projectId = t.projectId := by
  obtain ⟨d, hvalid, hproject, hshows⟩ := h.origin t ht
  have hd := ProjectDocument.validate_ok hvalid
  have htask : t ∈ d.tasks :=
    hshows.tasks.mem_iff.mp (List.mem_filter.mpr ⟨ht, by simp [hproject]⟩)
  obtain ⟨s, hs, hid⟩ := List.mem_map.mp (hd.taskStatus t htask)
  have hrow := (List.mem_filter.mp (hshows.statuses.mem_iff.mpr hs)).1
  exact ⟨s, hrow, hid, (hd.statusProject s hs).trans hproject⟩

namespace Written
variable {d : ProjectDocument} {db w : Database} {gone : List Uuid}

theorem perm_of_keys {ρ : Type} {key : ρ → Uuid} {keep : ρ → Bool} {rows table : List ρ}
    (htable : (table.map key).Nodup) (hrows : (rows.map key).Nodup)
    (h : ∀ r, r ∈ table ∧ keep r = true ↔ r ∈ rows) : (table.filter keep).Perm rows := by
  refine (List.perm_ext_iff_of_nodup (htable.of_map.filter _) hrows.of_map).mpr ?_
  intro r
  rw [List.mem_filter, h]

/-- The project now owns the tasks of the document and no others. -/
theorem ownsTask (hd : d.Wellformed) (h : Written d db w gone) {id : Uuid} :
    w.ownsTask d.project.id id = true ↔ id ∈ d.tasks.map (·.id) := by
  rw [Database.ownsTask_iff]
  constructor
  · rintro ⟨t, ht, rfl, hproject⟩
    rcases (h.tasks t).mp ht with ht | ⟨old, _, hother, rfl⟩
    · exact List.mem_map_of_mem ht
    · rw [orphan_projectId] at hproject
      exact (hother hproject).elim
  · intro hid
    obtain ⟨t, ht, rfl⟩ := List.mem_map.mp hid
    exact ⟨t, (h.tasks t).mpr (Or.inl ht), rfl, hd.taskProject t ht⟩

theorem shows (hd : d.Wellformed) (h : Written d db w gone) : w.Shows d := by
  have hids := hd.distinctIds
  have howned {taskId : Uuid} := @Written.ownsTask _ _ _ _ hd h taskId
  constructor
  case statuses =>
    refine perm_of_keys h.keys.statuses hids.statuses fun r => ?_
    rw [h.statuses, decide_eq_true_eq]
    constructor
    · rintro ⟨hr | ⟨_, hother⟩, hproject⟩
      · exact hr
      · exact (hother hproject).elim
    · exact fun hr => ⟨Or.inl hr, hd.statusProject r hr⟩
  case tags =>
    refine perm_of_keys h.keys.tags hids.tags fun r => ?_
    rw [h.tags, decide_eq_true_eq]
    constructor
    · rintro ⟨hr | ⟨_, hother⟩, hproject⟩
      · exact hr
      · exact (hother hproject).elim
    · exact fun hr => ⟨Or.inl hr, hd.tagProject r hr⟩
  case tasks =>
    refine perm_of_keys h.keys.tasks hids.tasks fun t => ?_
    rw [h.tasks, decide_eq_true_eq]
    constructor
    · rintro ⟨ht | ⟨old, _, hother, rfl⟩, hproject⟩
      · exact ht
      · rw [orphan_projectId] at hproject
        exact (hother hproject).elim
    · exact fun ht => ⟨Or.inl ht, hd.taskProject t ht⟩
  case taskTags =>
    refine perm_of_keys h.keys.taskTags hids.taskTags fun r => ?_
    rw [h.taskTags, howned]
    constructor
    · rintro ⟨hr | hr, hin⟩
      · exact hr
      · exact (hr.2.2.1 hin).elim
    · exact fun hr => ⟨Or.inl hr, (hd.tagged r hr).1⟩
  case taskAssignees =>
    refine perm_of_keys h.keys.taskAssignees hids.taskAssignees fun r => ?_
    rw [h.taskAssignees, howned]
    constructor
    · rintro ⟨hr | hr, hin⟩
      · exact hr
      · exact (hr.2.2.1 hin).elim
    · exact fun hr => ⟨Or.inl hr, hd.assigned r hr⟩
  case taskFollowers =>
    refine perm_of_keys h.keys.taskFollowers hids.taskFollowers fun r => ?_
    rw [h.taskFollowers, howned]
    constructor
    · rintro ⟨hr | hr, hin⟩
      · exact hr
      · exact (hr.2.2.1 hin).elim
    · exact fun hr => ⟨Or.inl hr, hd.followed r hr⟩
  case taskRelationships =>
    refine perm_of_keys h.keys.taskRelationships hids.taskRelationships fun r => ?_
    rw [h.taskRelationships, howned]
    constructor
    · rintro ⟨hr | hr, hin⟩
      · exact hr
      · exact (hr.2.2.1 hin).elim
    · exact fun hr => ⟨Or.inl hr, (hd.related r hr).1⟩

/-- A task that is not removed is still there. -/
theorem task_kept (h : Written d db w gone) {id : Uuid} (hid : id ∈ db.tasks.map (·.id))
    (hkept : ¬ Removed d db id) : id ∈ w.tasks.map (·.id) := by
  obtain ⟨t, ht, rfl⟩ := List.mem_map.mp hid
  by_cases hproject : t.projectId = d.project.id
  · have hin : t.id ∈ d.tasks.map (·.id) := by
      by_contra hnot
      exact hkept ⟨hnot, t, ht, rfl, hproject⟩
    obtain ⟨t', ht', heq⟩ := List.mem_map.mp hin
    exact List.mem_map.mpr ⟨t', (h.tasks t').mpr (Or.inl ht'), heq⟩
  · exact List.mem_map.mpr ⟨orphan gone t, (h.tasks _).mpr (Or.inr ⟨t, ht, hproject, rfl⟩),
      orphan_id gone t⟩

theorem documentTask (h : Written d db w gone) {id : Uuid} (hid : id ∈ d.tasks.map (·.id)) :
    id ∈ w.tasks.map (·.id) := by
  obtain ⟨t, ht, rfl⟩ := List.mem_map.mp hid
  exact List.mem_map_of_mem ((h.tasks t).mpr (Or.inl ht))

/-- A task the project does not own is not removed. -/
theorem not_removed {id : Uuid} (h : db.ownsTask d.project.id id = false) : ¬ Removed d db id := by
  rintro ⟨_, howner⟩
  rw [← Database.ownsTask_iff, h] at howner
  cases howner

theorem tag_kept (h : Written d db w gone) {id : Uuid} (hid : id ∈ db.tags.map (·.id))
    (hkept : ¬ RemovedTag d db id) : id ∈ w.tags.map (·.id) := by
  obtain ⟨t, ht, rfl⟩ := List.mem_map.mp hid
  by_cases hproject : t.projectId = d.project.id
  · have hin : t.id ∈ d.tags.map (·.id) := by
      by_contra hnot
      exact hkept ⟨hnot, t, ht, rfl, hproject⟩
    obtain ⟨t', ht', heq⟩ := List.mem_map.mp hin
    exact List.mem_map.mpr ⟨t', (h.tags t').mpr (Or.inl ht'), heq⟩
  · exact List.mem_map_of_mem ((h.tags t).mpr (Or.inr ⟨ht, hproject⟩))

/-- Nothing is left that refers to a row that is gone. -/
theorem foreignKeys (hd : d.Wellformed) (h : Written d db w gone) (hsound : db.Sound)
    (hproject : d.project.id ∈ db.projects.map (·.id))
    (hunused : ∀ id, Removed d db id → id ∉ db.executions ∧ id ∉ db.prepared) : w.ForeignKeys := by
  have hfk := hsound.foreignKeys
  constructor
  case metadataProject =>
    intro r hr
    rw [h.projects]
    rcases h.metadata r hr with heq | hold
    · rw [heq]
      exact hproject
    · obtain ⟨old, hold, heq⟩ := List.mem_map.mp hold
      rw [← heq]
      exact hfk.metadataProject old hold
  case mountProject =>
    rw [h.projects, h.mounts]
    exact hfk.mountProject
  case statusProject =>
    intro r hr
    rw [h.projects]
    rcases (h.statuses r).mp hr with hr | ⟨hr, _⟩
    · rw [hd.statusProject r hr]
      exact hproject
    · exact hfk.statusProject r hr
  case tagProject =>
    intro r hr
    rw [h.projects]
    rcases (h.tags r).mp hr with hr | ⟨hr, _⟩
    · rw [hd.tagProject r hr]
      exact hproject
    · exact hfk.tagProject r hr
  case taskProject =>
    intro t ht
    rw [h.projects]
    rcases (h.tasks t).mp ht with ht | ⟨old, hold, _, rfl⟩
    · rw [hd.taskProject t ht]
      exact hproject
    · rw [orphan_projectId]
      exact hfk.taskProject old hold
  case taskStatus =>
    intro t ht
    rcases (h.tasks t).mp ht with ht | ⟨old, hold, hother, rfl⟩
    · obtain ⟨s, hs, heq⟩ := List.mem_map.mp (hd.taskStatus t ht)
      exact List.mem_map.mpr ⟨s, (h.statuses s).mpr (Or.inl hs), heq⟩
    · obtain ⟨s, hs, hid, howner⟩ := hsound.taskStatus hold
      rw [orphan_statusId, ← hid]
      exact List.mem_map_of_mem ((h.statuses s).mpr (Or.inr ⟨hs, by rwa [howner]⟩))
  case taskParent =>
    intro t ht id hid
    rcases (h.tasks t).mp ht with ht | ⟨old, hold, _, rfl⟩
    · exact h.documentTask (hd.taskParent t ht id hid)
    · obtain ⟨hparent, hkept⟩ := orphan_parent hid
      rw [h.gone_iff] at hkept
      exact h.task_kept (hfk.taskParent old hold id hparent) hkept
  case tagged =>
    intro r hr
    rcases (h.taskTags r).mp hr with hr | ⟨hr, _, _, hother, htag⟩
    · obtain ⟨htask, htag⟩ := hd.tagged r hr
      obtain ⟨t, ht, heq⟩ := List.mem_map.mp htag
      exact ⟨h.documentTask htask, List.mem_map.mpr ⟨t, (h.tags t).mpr (Or.inl ht), heq⟩⟩
    · obtain ⟨htask, hin⟩ := hfk.tagged r hr
      exact ⟨h.task_kept htask (not_removed hother), h.tag_kept hin htag⟩
  case assigned =>
    intro r hr
    rcases (h.taskAssignees r).mp hr with hr | ⟨hr, _, _, hother⟩
    · exact h.documentTask (hd.assigned r hr)
    · exact h.task_kept (hfk.assigned r hr) (not_removed hother)
  case followed =>
    intro r hr
    rcases (h.taskFollowers r).mp hr with hr | ⟨hr, _, _, hother⟩
    · exact h.documentTask (hd.followed r hr)
    · exact h.task_kept (hfk.followed r hr) (not_removed hother)
  case related =>
    intro r hr
    rcases (h.taskRelationships r).mp hr with hr | ⟨hr, _, _, hother, hrelated⟩
    · obtain ⟨htask, hrelated⟩ := hd.related r hr
      exact ⟨h.documentTask htask, h.documentTask hrelated⟩
    · obtain ⟨htask, hin⟩ := hfk.related r hr
      exact ⟨h.task_kept htask (not_removed hother), h.task_kept hin hrelated⟩
  case executed =>
    rw [h.executions]
    intro id hid
    exact h.task_kept (hfk.executed id hid) fun hremoved => (hunused id hremoved).1 hid
  case prepared =>
    rw [h.prepared]
    intro id hid
    exact h.task_kept (hfk.prepared id hid) fun hremoved => (hunused id hremoved).2 hid

end Written

section Main
variable {d : ProjectDocument} {db : Database}

theorem shows_indexRevision {w : Database} : (indexRevision d w).Shows d ↔ w.Shows d := by
  constructor
  · exact fun h => ⟨h.1, h.2, h.3, h.4, h.5, h.6, h.7⟩
  · exact fun h => ⟨h.1, h.2, h.3, h.4, h.5, h.6, h.7⟩

/-- Whatever state the projection was in, a successful `project_in` leaves the document. -/
theorem projectIn_shows {db' : Database} (hkeys : db.Keys) (h : projectIn d db = .ok db') :
    db'.Shows d ∧ db'.Keys := by
  obtain ⟨hvalid, w, hrewrite, _, rfl⟩ := projectIn_ok.mp h
  have hd := ProjectDocument.validate_ok hvalid
  obtain ⟨db₁, db₂, hstages⟩ := (rewrite_ok hd.distinctIds).mp hrewrite
  have hwritten := hstages.written hd hkeys
  have hkeys' := hwritten.keys
  exact ⟨shows_indexRevision.mpr (hwritten.shows hd), hkeys'.1, hkeys'.2, hkeys'.3, hkeys'.4,
    hkeys'.5, hkeys'.6, hkeys'.7⟩

/-- For a valid document of a registered project, whose record ids are its own and whose removed
tasks have no executions, `project_in` succeeds with the document's rows exactly when no task takes
a number or simple id that SQL still shows for another, no association stands twice and no removed
task is held by a main session. -/
theorem projectIn_exact (db : Database) (d : ProjectDocument) (hsound : db.Sound)
    (hmount : d.project.id ∈ db.mounts.map (·.projectId)) (hvalid : d.validate = .ok ())
    (hown : OwnIds d db) (hunused : ∀ id, Removed d db id → id ∉ db.executions) :
    (∃ db', projectIn d db = .ok db' ∧ db'.Shows d) ↔ Placeable d db := by
  have hd := ProjectDocument.validate_ok hvalid
  have hproject : d.project.id ∈ db.projects.map (·.id) := by
    obtain ⟨mount, hmem, heq⟩ := List.mem_map.mp hmount
    rw [← heq]
    exact hsound.foreignKeys.mountProject mount hmem
  constructor
  · rintro ⟨db', h, _⟩
    obtain ⟨_, w, hrewrite, _, _⟩ := projectIn_ok.mp h
    obtain ⟨db₁, db₂, hstages⟩ := (rewrite_ok hd.distinctIds).mp hrewrite
    exact hstages.placeable hd
  · intro hplace
    obtain ⟨db₁, db₂, w, hstages⟩ := exists_stages hd hown hplace hunused
    have hwritten := hstages.written hd hsound.keys
    have hkeys := hwritten.foreignKeys hd hsound hproject
      fun id hid => ⟨hunused id hid, hplace.prepared id hid⟩
    have hrewrite : rewrite d db = .ok w := (rewrite_ok hd.distinctIds).mpr ⟨db₁, db₂, hstages⟩
    exact ⟨indexRevision d w, projectIn_ok.mpr ⟨hvalid, w, hrewrite, hkeys, rfl⟩,
      shows_indexRevision.mpr (hwritten.shows hd)⟩

def sampleTask (id : Uuid) (number : ℤ) (simpleId : String) : Task :=
  { id, issueNumber := number, simpleId, projectId := 10, statusId := 20, title := "T"
    description := none, priority := none, startDate := none, targetDate := none
    completedAt := none, sortOrder := 0, parentIssueId := none, parentIssueSortOrder := none
    extensionMetadata := .null, creatorUserId := none, createdAt := 0, updatedAt := 0 }

/-- A project with one status and the given tasks. -/
def sampleDocument (revision : ℤ) (tasks : List Task) : ProjectDocument :=
  { schemaVersion := 1, revision, project := ⟨10, 2, "P", "C", 0, 0, 0⟩
    statuses := [⟨20, 10, "Todo", "C", 100, false, 0⟩], tags := [], tasks, taskTags := []
    taskAssignees := [], taskFollowers := [], taskRelationships := [] }

def firstTasks : List Task := [sampleTask 31 1 "TASK-1", sampleTask 32 2 "TASK-2"]

/-- The two tasks have exchanged their numbers. -/
def swappedTasks : List Task := [sampleTask 31 2 "TASK-2", sampleTask 32 1 "TASK-1"]

/-- The projection of the first document. -/
def sampleDatabase : Database :=
  { projects := [⟨10, "P", 0, 0⟩], metadata := [⟨10, 2, "C", 0⟩], mounts := [⟨10, "/p", 1⟩]
    statuses := [⟨20, 10, "Todo", "C", 100, false, 0⟩], tags := [], tasks := firstTasks
    taskTags := [], taskAssignees := [], taskFollowers := [], taskRelationships := []
    executions := [], prepared := [], scratch := [], repos := [], projectRepos := [] }

theorem sampleDatabase_shows : sampleDatabase.Shows (sampleDocument 1 firstTasks) := by
  constructor <;> decide

theorem sampleDatabase_sound : sampleDatabase.Sound where
  keys := by constructor <;> decide
  foreignKeys := Database.foreignKeyCheck_iff.mp (by decide)
  origin := by
    intro t ht
    refine ⟨sampleDocument 1 firstTasks, rfl, ?_, sampleDatabase_shows⟩
    simp only [sampleDatabase, firstTasks, List.mem_cons, List.not_mem_nil, or_false] at ht
    rcases ht with rfl | rfl <;> rfl

theorem sampleDatabase_ownIds (revision : ℤ) (tasks : List Task) :
    OwnIds (sampleDocument revision tasks) sampleDatabase := by
  constructor
  case tasks =>
    intro t ht _
    simp only [sampleDatabase, firstTasks, List.mem_cons, List.not_mem_nil, or_false] at ht
    rcases ht with rfl | rfl <;> rfl
  case statuses =>
    intro r hr _
    rw [List.mem_singleton.mp hr]
    rfl
  all_goals exact fun r hr => (List.not_mem_nil hr).elim

theorem projectIn_exact_next :
    Placeable (sampleDocument 2 (firstTasks ++ [sampleTask 33 3 "TASK-3"])) sampleDatabase :=
  (projectIn_exact sampleDatabase (sampleDocument 2 (firstTasks ++ [sampleTask 33 3 "TASK-3"]))
    sampleDatabase_sound (by decide) (by rfl) (sampleDatabase_ownIds 2 _) (fun _ _ => nofun)).mp
    ⟨_, rfl, by constructor <;> decide⟩

/-- Two tasks that exchange their numbers cannot be projected. -/
theorem projectIn_swapped :
    sampleDatabase.Sound ∧ (sampleDocument 1 firstTasks).validate = .ok () ∧
      sampleDatabase.Shows (sampleDocument 1 firstTasks) ∧
      (sampleDocument 2 swappedTasks).validate = .ok () ∧
      (sampleDocument 2 swappedTasks).project.id ∈ sampleDatabase.mounts.map (·.projectId) ∧
      OwnIds (sampleDocument 2 swappedTasks) sampleDatabase ∧
      (∀ id, ¬ Removed (sampleDocument 2 swappedTasks) sampleDatabase id) ∧
      ¬ ∃ db', projectIn (sampleDocument 2 swappedTasks) sampleDatabase = .ok db' ∧
        db'.Shows (sampleDocument 2 swappedTasks) := by
  refine ⟨sampleDatabase_sound, rfl, sampleDatabase_shows, rfl, by decide,
    sampleDatabase_ownIds 2 _, ?_, ?_⟩
  · rintro id ⟨hnot, t, ht, rfl, _⟩
    revert t
    decide
  · rintro ⟨db', h, _⟩
    have hfails : projectIn (sampleDocument 2 swappedTasks) sampleDatabase = .error .database := rfl
    rw [hfails] at h
    cases h

end Main

end VibeKanban.ProjectStore
