import VibeKanban.Filesystem.Watcher

/-! What a queue of notices still says of a directory, and what one notice does to the watches. -/
namespace VibeKanban.Filesystem

/-- Nothing in the queue takes the directory away. -/
def Unrevoked (path : Path) (notices : List Notice) : Prop :=
  ∀ stem, Notice.gone stem ∈ notices → ¬ stem <+: path

/-- The queue announces the directory and does not take it away again. -/
def Announced (path : Path) : List Notice → Prop
  | [] => False
  | .came other :: rest => (other = path ∧ Unrevoked path rest) ∨ Announced path rest
  | .gone _ :: rest => Announced path rest

section Queue
variable {path stem : Path} {notices more rest : List Notice}

theorem unrevoked_nil : Unrevoked path [] := by
  intro stem h
  simp at h

@[simp] theorem unrevoked_append :
    Unrevoked path (notices ++ more) ↔ Unrevoked path notices ∧ Unrevoked path more := by
  unfold Unrevoked
  constructor
  · intro h
    exact ⟨fun stem hmem => h stem (List.mem_append_left _ hmem),
      fun stem hmem => h stem (List.mem_append_right _ hmem)⟩
  · rintro ⟨hleft, hright⟩ stem hmem
    exact (List.mem_append.mp hmem).elim (hleft stem) (hright stem)

@[simp] theorem unrevoked_came {other : Path} :
    Unrevoked path (.came other :: rest) ↔ Unrevoked path rest := by
  simp [Unrevoked]

@[simp] theorem unrevoked_gone :
    Unrevoked path (.gone stem :: rest) ↔ ¬ stem <+: path ∧ Unrevoked path rest := by
  simp [Unrevoked]

theorem Unrevoked.of_isPrefix (h : Unrevoked path notices) (habove : stem <+: path) :
    Unrevoked stem notices := fun other hmem hother => h other hmem (hother.trans habove)

theorem announced_append :
    Announced path (notices ++ more) ↔
      Announced path more ∨ (Announced path notices ∧ Unrevoked path more) := by
  induction notices with
  | nil => simp [Announced]
  | cons first rest ih =>
    cases first with
    | gone stem => exact ih
    | came other =>
      simp only [List.cons_append, Announced, ih, unrevoked_append]
      tauto

theorem announced_of_mem (h : Notice.came path ∈ notices) (hunrevoked : Unrevoked path notices) :
    Announced path notices := by
  induction notices with
  | nil => simp at h
  | cons first rest ih =>
    rcases List.mem_cons.mp h with rfl | hrest
    · exact .inl ⟨rfl, unrevoked_came.mp hunrevoked⟩
    · cases first with
      | gone stem => exact ih hrest (unrevoked_gone.mp hunrevoked).2
      | came other => exact .inr (ih hrest (unrevoked_came.mp hunrevoked))

/-- The last notice that takes a directory away. -/
theorem exists_last_gone (h : ¬ Unrevoked path notices) :
    ∃ stem earlier later, notices = earlier ++ .gone stem :: later ∧ stem <+: path ∧
      Unrevoked path later := by
  induction notices with
  | nil => exact absurd unrevoked_nil h
  | cons first rest ih =>
    by_cases hrest : Unrevoked path rest
    · cases first with
      | came other => exact absurd (unrevoked_came.mpr hrest) h
      | gone stem =>
        have habove : stem <+: path := by
          by_contra hother
          exact h (unrevoked_gone.mpr ⟨hother, hrest⟩)
        exact ⟨stem, [], rest, rfl, habove, hrest⟩
    · obtain ⟨stem, earlier, later, rfl, habove, hlater⟩ := ih hrest
      exact ⟨stem, first :: earlier, later, rfl, habove, hlater⟩

end Queue

/-- A listed directory covers another one. -/
structure Covers (watched : WatchedDirs) (ancestor dir : Path) : Prop where
  listed : ancestor ∈ watched.all
  above : ancestor <+: dir
  reaches : ancestor = dir ∨ ancestor ∈ watched.recursive

/-- A directory is covered, and the queue does not change that. -/
def Settled (watched : WatchedDirs) (dir : Path) (notices : List Notice) : Prop :=
  ∃ ancestor, Covers watched ancestor dir ∧ Unrevoked ancestor notices

theorem Covers.child {watched : WatchedDirs} {ancestor dir : Path} (h : Covers watched ancestor dir.dropLast)
    (hrecursive : ancestor ∈ watched.recursive) : Covers watched ancestor dir :=
  ⟨h.listed, h.above.trans (List.dropLast_prefix dir), .inr hrecursive⟩

theorem exists_covers_iff {watched : WatchedDirs} {dir : Path}
    (hlisted : ∀ path ∈ watched.recursive, path ∈ watched.all) :
    (∃ ancestor, Covers watched ancestor dir) ↔
      watched.contains dir = true ∨ watched.hasRecursiveCover dir = true := by
  simp only [WatchedDirs.contains, WatchedDirs.hasRecursiveCover, List.contains_iff_mem, List.any_eq_true,
    Bool.and_eq_true, decide_eq_true_eq, List.isPrefixOf_iff_prefix]
  constructor
  · rintro ⟨ancestor, h⟩
    by_cases heq : ancestor = dir
    · exact .inl (heq ▸ h.listed)
    · exact .inr ⟨ancestor, h.reaches.resolve_left heq, heq, h.above⟩
  · rintro (h | ⟨ancestor, hrecursive, -, habove⟩)
    · exact ⟨dir, h, List.prefix_rfl, .inl rfl⟩
    · exact ⟨ancestor, hlisted ancestor hrecursive, habove, .inr hrecursive⟩

section Moves
variable {rules : Rules} {t : Tree} {s : Watches} {dir path : Path}

theorem mem_removeWithin_all {watched : WatchedDirs} {stem : Path} {includeStem : Bool} :
    path ∈ (watched.removeWithin stem includeStem).1.all ↔
      path ∈ watched.all ∧ ¬ (stem <+: path ∧ (includeStem = true ∨ path ≠ stem)) := by
  simp [WatchedDirs.removeWithin]
  tauto

theorem mem_removeWithin_recursive {watched : WatchedDirs} {stem : Path} {includeStem : Bool}
    (hlisted : ∀ path ∈ watched.recursive, path ∈ watched.all) :
    path ∈ (watched.removeWithin stem includeStem).1.recursive ↔
      path ∈ watched.recursive ∧ ¬ (stem <+: path ∧ (includeStem = true ∨ path ≠ stem)) := by
  have hmem := hlisted path
  simp [WatchedDirs.removeWithin]
  tauto

theorem mem_removed {watched : WatchedDirs} {stem : Path} {includeStem : Bool} :
    path ∈ (watched.removeWithin stem includeStem).2 ↔
      path ∈ watched.all ∧ stem <+: path ∧ (includeStem = true ∨ path ≠ stem) := by
  simp [WatchedDirs.removeWithin]

theorem mem_removeDirectoryWatch :
    path ∈ (removeDirectoryWatch s dir).watched.all ↔ path ∈ s.watched.all ∧ ¬ dir <+: path := by
  show path ∈ (s.watched.removeWithin dir true).1.all ↔ _
  simp [mem_removeWithin_all]

theorem mem_removeDirectoryWatch_recursive
    (hlisted : ∀ path ∈ s.watched.recursive, path ∈ s.watched.all) :
    path ∈ (removeDirectoryWatch s dir).watched.recursive ↔
      path ∈ s.watched.recursive ∧ ¬ dir <+: path := by
  show path ∈ (s.watched.removeWithin dir true).1.recursive ↔ _
  simp [mem_removeWithin_recursive hlisted]

theorem debouncer_removeDirectoryWatch (h : ¬ dir <+: path) :
    (removeDirectoryWatch s dir).debouncer path = s.debouncer path := by
  show (if path ∈ (s.watched.removeWithin dir true).2 then none else s.debouncer path) = _
  rw [if_neg]
  rw [mem_removed]
  exact fun hremoved => h hremoved.2.1

/-- A directory has been put on the list, in a mode. -/
structure Added (s s' : Watches) (dir : Path) (mode : RecursiveMode) : Prop where
  listed : ∀ path, path ∈ s'.watched.all ↔
    path = dir ∨ (path ∈ s.watched.all ∧ ¬ (mode = .recursive ∧ dir <+: path))
  recursive : ∀ path, path ∈ s'.watched.recursive ↔
    if path = dir then mode = .recursive
    else path ∈ s.watched.recursive ∧ ¬ (mode = .recursive ∧ dir <+: path)
  watch : s'.debouncer dir = some mode
  frame : ∀ path, path ≠ dir → ¬ (mode = .recursive ∧ dir <+: path) →
    s'.debouncer path = s.debouncer path

theorem addDirectoryWatch_cases (rules : Rules) (t : Tree) (dir : Path)
    (hlisted : ∀ path ∈ s.watched.recursive, path ∈ s.watched.all) :
    (addDirectoryWatch rules t s dir = s ∧
      (rules.pathAllowed t dir = true → ∃ ancestor, Covers s.watched ancestor dir)) ∨
    (rules.pathAllowed t dir = true ∧ (¬ ∃ ancestor, Covers s.watched ancestor dir) ∧
      Added s (addDirectoryWatch rules t s dir) dir (determineWatchMode rules t dir)) := by
  unfold addDirectoryWatch
  by_cases hallowed : rules.pathAllowed t dir = true
  · by_cases hcovered : (s.watched.contains dir || s.watched.hasRecursiveCover dir) = true
    · left
      rw [if_neg (by simp [hallowed]), if_pos hcovered]
      exact ⟨rfl, fun _ => (exists_covers_iff hlisted).mpr (by simpa using hcovered)⟩
    · right
      rw [if_neg (by simp [hallowed]), if_neg hcovered]
      have huncovered : ¬ ∃ ancestor, Covers s.watched ancestor dir := by
        rw [exists_covers_iff hlisted]
        simpa using hcovered
      refine ⟨hallowed, huncovered, ?_⟩
      cases determineWatchMode rules t dir with
      | nonRecursive =>
        constructor
        · intro path
          simp [Watches.watch, WatchedDirs.insert]
        · intro path
          by_cases heq : path = dir <;> simp [Watches.watch, WatchedDirs.insert, heq]
        · simp [Watches.watch]
        · intro path hne _
          simp [Watches.watch, hne]
      | recursive =>
        constructor
        · intro path
          show path ∈ List.insert dir (s.watched.removeWithin dir false).1.all ↔ _
          rw [List.mem_insert_iff, mem_removeWithin_all]
          by_cases heq : path = dir <;> simp [heq]
        · intro path
          show path ∈ List.insert dir (s.watched.removeWithin dir false).1.recursive ↔ _
          rw [List.mem_insert_iff, mem_removeWithin_recursive hlisted]
          by_cases heq : path = dir <;> simp [heq]
        · show (if dir ∈ (s.watched.removeWithin dir false).2 then none
            else (s.watch dir .recursive).debouncer dir) = _
          rw [if_neg (by simp [mem_removed])]
          simp [Watches.watch]
        · intro path hne houtside
          show (if path ∈ (s.watched.removeWithin dir false).2 then none
            else (s.watch dir .recursive).debouncer path) = _
          have habove : ¬ dir <+: path := fun h => houtside ⟨rfl, h⟩
          rw [if_neg (by simp [mem_removed, habove])]
          simp [Watches.watch, hne]
  · left
    rw [if_pos (by simpa using hallowed)]
    exact ⟨rfl, fun h => absurd h hallowed⟩

end Moves

end VibeKanban.Filesystem
