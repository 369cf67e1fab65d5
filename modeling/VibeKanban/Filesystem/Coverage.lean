import VibeKanban.Filesystem.Notices

/-! The watcher and the directory tree together: whether every wanted directory stays covered. -/
namespace VibeKanban.Filesystem

/-- Neither the directory nor one above it is skipped or ignored. -/
def Rules.Wanted (rules : Rules) (dir : Path) : Prop :=
  ∀ path, path <+: dir → path ≠ [] →
    rules.entered path = true ∧ rules.matchedPathOrAnyParents path true ≠ .ignore

/-- The watches report what changes in a directory. -/
def Reporting (debouncer : Path → Option RecursiveMode) (dir : Path) : Prop :=
  ∃ ancestor mode, debouncer ancestor = some mode ∧ ancestor <+: dir ∧
    (ancestor = dir ∨ mode = .recursive)

/-- The directories, the watches and the events that are not yet handled. -/
structure World where
  tree : Tree
  watches : Watches
  queue : List Event

def noticesOf (events : List Event) : List Notice := events.flatMap Event.notices

inductive Action (t : Tree) where
  | change (change : Change t) (events : List Event)
  | handle

/-- The events of a change: what goes and what comes in a watched directory is reported, and only what
goes or is announced again is reported gone. -/
structure Reported (debouncer : Path → Option RecursiveMode) {t : Tree} (change : Change t)
    (notices : List Notice) : Prop where
  departed : ∀ path, change.departed = some path → Reporting debouncer path.dropLast →
    .gone path ∈ notices
  arrived : ∀ target, change.arrived = some target → Reporting debouncer target.dropLast →
    Announced target notices
  honest : ∀ path earlier later, notices = earlier ++ .gone path :: later →
    path ≠ [] ∧ (path ∈ change.apply.dirs → .came path ∈ later)

/-- The paths at which a change leaves no directory or another one. -/
def Change.Replaces {t : Tree} (change : Change t) (path : Path) : Prop :=
  ∃ stem ∈ change.departed.toList ++ change.arrived.toList, stem <+: path

instance {t : Tree} (change : Change t) (path : Path) : Decidable (change.Replaces path) :=
  inferInstanceAs (Decidable (∃ stem ∈ _, _))

namespace World
variable (rules : Rules) (w : World)

def Legal : Action w.tree → Prop
  | .change change events => Reported w.watches.debouncer change (noticesOf events)
  | .handle => w.queue ≠ []

/-- A watch is lost with its directory. -/
def next : Action w.tree → World
  | .change change events =>
    { tree := change.apply
      watches := { w.watches with
        debouncer := fun path => if change.Replaces path then none else w.watches.debouncer path }
      queue := w.queue ++ events }
  | .handle =>
    match w.queue with
    | [] => w
    | event :: rest => { w with watches := handleEvent rules w.tree w.watches event, queue := rest }

/-- Every wanted directory is listed or lies under a recursive one, and every listed directory exists. -/
def Covered : Prop :=
  (∀ dir ∈ w.tree.dirs, rules.Wanted dir →
    w.watches.watched.contains dir = true ∨ w.watches.watched.hasRecursiveCover dir = true) ∧
  ∀ dir ∈ w.watches.watched.all, dir ∈ w.tree.dirs

def initial (rules : Rules) (t : Tree) : World :=
  ⟨t, initialWatches rules t, []⟩

end World

/-- A run in which every action meets a condition. -/
inductive WatchRun (rules : Rules) (ok : (w : World) → Action w.tree → Prop) (start : World) :
    World → Prop where
  | start : WatchRun rules ok start start
  | step {w : World} (h : WatchRun rules ok start w) (action : Action w.tree) (hlegal : w.Legal action)
    (hok : ok w action) : WatchRun rules ok start (w.next rules action)

section Clear
variable (rules : Rules) (t : Tree)

/-- A directory that is put on the list by a notice, and not taken away by a later one, is in a covered
directory. Unless it is watched recursively, what is wanted in it is settled or still announced. -/
def ClearNotice (s : Watches) (rest : List Notice) : Notice → Prop
  | .gone _ => True
  | .came dir =>
    dir ∈ t.dirs → rules.pathAllowed t dir = true → Unrevoked dir rest →
    (¬ ∃ ancestor, Covers s.watched ancestor dir) →
    (∃ ancestor, Covers s.watched ancestor dir.dropLast) ∧
    (determineWatchMode rules t dir = .nonRecursive → ∀ child ∈ t.children dir, rules.Wanted child →
      Settled s.watched child rest ∨ Announced child rest)

def ClearNotices (s : Watches) (rest : List Notice) : List Notice → Prop
  | [] => True
  | notice :: more => ClearNotice rules t s (more ++ rest) notice ∧
    ClearNotices (handleNotice rules t s notice) rest more

/-- No listed directory is replaced unnoticed, and no directory is added over unannounced ones. -/
def Clear (w : World) : Action w.tree → Prop
  | .change change events => ∀ target, change.arrived = some target →
    target ∈ w.watches.watched.all → .gone target ∈ noticesOf events
  | .handle =>
    match w.queue with
    | [] => True
    | event :: rest => ClearNotices rules w.tree w.watches (noticesOf rest) event.notices

end Clear

/-- What holds of the tree, the watches and the notices that are not yet handled. -/
structure Kept (rules : Rules) (t : Tree) (s : Watches) (notices : List Notice) : Prop where
  listed : ∀ path ∈ s.watched.recursive, path ∈ s.watched.all
  root : [] ∈ s.watched.all
  unrevoked : Unrevoked [] notices
  live : ∀ path ∈ s.watched.all, Unrevoked path notices →
    s.debouncer path = some (if path ∈ s.watched.recursive then .recursive else .nonRecursive)
  present : ∀ path ∈ s.watched.all, Unrevoked path notices → path ∈ t.dirs
  parent : ∀ path ∈ s.watched.all, Unrevoked path notices → path ≠ [] →
    ∃ ancestor, Covers s.watched ancestor path.dropLast
  wanted : ∀ dir ∈ t.dirs, rules.Wanted dir → dir ≠ [] → Settled s.watched dir.dropLast notices →
    Settled s.watched dir notices ∨ Announced dir notices

namespace Kept
variable {rules : Rules} {t : Tree} {s : Watches} {notices rest : List Notice} {dir path : Path}

theorem reporting (h : Kept rules t s notices) (hcovers : Covers s.watched path dir)
    (hunrevoked : Unrevoked path notices) : Reporting s.debouncer dir := by
  refine ⟨path, _, h.live path hcovers.listed hunrevoked, hcovers.above, ?_⟩
  rcases hcovers.reaches with heq | hrecursive
  · exact .inl heq
  · exact .inr (if_pos hrecursive)

/-- The directories above a listed one are all reported on. -/
theorem reporting_above (h : Kept rules t s notices) (hlisted : path ∈ s.watched.all)
    (hunrevoked : Unrevoked path notices) (habove : dir <+: path) (hne : dir ≠ []) :
    Reporting s.debouncer dir.dropLast := by
  induction hlength : path.length using Nat.strong_induction_on generalizing path with
  | _ n ih =>
    have hpath : path ≠ [] := by
      rintro rfl
      exact hne (List.prefix_nil.mp habove)
    obtain ⟨ancestor, hcovers⟩ := h.parent path hlisted hunrevoked hpath
    have hprefix : ancestor <+: path := hcovers.above.trans (List.dropLast_prefix path)
    by_cases hlow : dir <+: ancestor
    · -- the covering directory is itself below `dir`
      have hshorter := Tree.length_dropLast_lt hpath
      have hlength' := hcovers.above.length_le
      exact ih _ (by omega) hcovers.listed (hunrevoked.of_isPrefix hprefix) hlow rfl
    · have hstrict : ancestor <+: dir :=
        (List.prefix_or_prefix_of_prefix hprefix habove).resolve_right hlow
      have hancestor : ancestor ≠ dir := fun heq => hlow (heq ▸ List.prefix_rfl)
      have hdrop := Tree.isPrefix_dropLast hstrict hancestor
      refine h.reporting ⟨hcovers.listed, hdrop, ?_⟩ (hunrevoked.of_isPrefix hprefix)
      rcases hcovers.reaches with heq | hrecursive
      · -- only a path of the same length is its own parent's cover
        left
        have hdirs : dir.dropLast <+: path.dropLast := by
          by_cases hsame : dir = path
          · rw [hsame]
          · exact (List.dropLast_prefix dir).trans (Tree.isPrefix_dropLast habove hsame)
        exact hdrop.eq_of_length_le (heq ▸ hdirs.length_le)
      · exact .inr hrecursive

theorem gone (h : Kept rules t s (.gone dir :: rest)) :
    Kept rules t (removeDirectoryWatch s dir) rest := by
  have hroot := unrevoked_gone.mp h.unrevoked
  have hcovers : ∀ ancestor path, Covers (removeDirectoryWatch s dir).watched ancestor path ↔
      Covers s.watched ancestor path ∧ ¬ dir <+: ancestor := by
    intro ancestor path
    constructor
    · rintro ⟨hlisted, habove, hreaches⟩
      rw [mem_removeDirectoryWatch] at hlisted
      rw [mem_removeDirectoryWatch_recursive h.listed] at hreaches
      exact ⟨⟨hlisted.1, habove, hreaches.imp_right And.left⟩, hlisted.2⟩
    · rintro ⟨⟨hlisted, habove, hreaches⟩, houtside⟩
      refine ⟨mem_removeDirectoryWatch.mpr ⟨hlisted, houtside⟩, habove, ?_⟩
      rw [mem_removeDirectoryWatch_recursive h.listed]
      exact hreaches.imp_right fun hrecursive => ⟨hrecursive, houtside⟩
  have hsettled : ∀ path, Settled (removeDirectoryWatch s dir).watched path rest ↔
      Settled s.watched path (.gone dir :: rest) := by
    intro path
    simp only [Settled, hcovers, unrevoked_gone, and_assoc]
  constructor
  · intro path hpath
    rw [mem_removeDirectoryWatch_recursive h.listed] at hpath
    exact mem_removeDirectoryWatch.mpr ⟨h.listed path hpath.1, hpath.2⟩
  · exact mem_removeDirectoryWatch.mpr ⟨h.root, hroot.1⟩
  · exact hroot.2
  · intro path hpath hunrevoked
    obtain ⟨hlisted, houtside⟩ := mem_removeDirectoryWatch.mp hpath
    rw [debouncer_removeDirectoryWatch houtside,
      h.live path hlisted (unrevoked_gone.mpr ⟨houtside, hunrevoked⟩)]
    simp [mem_removeDirectoryWatch_recursive h.listed, houtside]
  · intro path hpath hunrevoked
    obtain ⟨hlisted, houtside⟩ := mem_removeDirectoryWatch.mp hpath
    exact h.present path hlisted (unrevoked_gone.mpr ⟨houtside, hunrevoked⟩)
  · intro path hpath hunrevoked hne
    obtain ⟨hlisted, houtside⟩ := mem_removeDirectoryWatch.mp hpath
    obtain ⟨ancestor, hancestor⟩ := h.parent path hlisted (unrevoked_gone.mpr ⟨houtside, hunrevoked⟩) hne
    refine ⟨ancestor, (hcovers _ _).mpr ⟨hancestor, fun habove => houtside ?_⟩⟩
    exact habove.trans (hancestor.above.trans (List.dropLast_prefix path))
  · intro path hpath hwanted hne hparent
    rw [hsettled] at hparent ⊢
    exact h.wanted path hpath hwanted hne hparent

theorem skip (h : Kept rules t s (.came dir :: rest))
    (hcovered : dir ∈ t.dirs → rules.Wanted dir → dir ≠ [] → ∃ ancestor, Covers s.watched ancestor dir) :
    Kept rules t s rest := by
  constructor
  · exact h.listed
  · exact h.root
  · exact unrevoked_came.mp h.unrevoked
  · exact fun path hpath hunrevoked => h.live path hpath (unrevoked_came.mpr hunrevoked)
  · exact fun path hpath hunrevoked => h.present path hpath (unrevoked_came.mpr hunrevoked)
  · exact fun path hpath hunrevoked => h.parent path hpath (unrevoked_came.mpr hunrevoked)
  · intro path hpath hwanted hne hparent
    have hbefore := h.wanted path hpath hwanted hne (by
      obtain ⟨ancestor, hancestor, hunrevoked⟩ := hparent
      exact ⟨ancestor, hancestor, unrevoked_came.mpr hunrevoked⟩)
    rcases hbefore with ⟨ancestor, hancestor, hunrevoked⟩ | ⟨rfl, hunrevoked⟩ | hannounced
    · exact .inl ⟨ancestor, hancestor, unrevoked_came.mp hunrevoked⟩
    · obtain ⟨ancestor, hancestor⟩ := hcovered hpath hwanted hne
      exact .inl ⟨ancestor, hancestor, hunrevoked.of_isPrefix hancestor.above⟩
    · exact .inr hannounced

theorem add {s' : Watches} {mode : RecursiveMode} (h : Kept rules t s (.came dir :: rest))
    (hdir : dir ∈ t.dirs) (huncovered : ¬ ∃ ancestor, Covers s.watched ancestor dir)
    (hadded : Added s s' dir mode)
    (hparent : Unrevoked dir rest → ∃ ancestor, Covers s.watched ancestor dir.dropLast)
    (hchildren : Unrevoked dir rest → mode = .nonRecursive → ∀ child ∈ t.children dir, rules.Wanted child →
      Settled s.watched child rest ∨ Announced child rest) :
    Kept rules t s' rest := by
  have habsent : dir ∉ s.watched.all := fun hmem =>
    huncovered ⟨dir, hmem, List.prefix_rfl, .inl rfl⟩
  have hdirne : dir ≠ [] := by
    rintro rfl
    exact habsent h.root
  have hstays : ∀ ancestor path, Covers s.watched ancestor path →
      ¬ (mode = .recursive ∧ dir <+: ancestor) → Covers s'.watched ancestor path := by
    intro ancestor path hcovers hleft
    have hne : ancestor ≠ dir := fun heq => habsent (heq ▸ hcovers.listed)
    refine ⟨(hadded.listed _).mpr (.inr ⟨hcovers.listed, hleft⟩), hcovers.above, ?_⟩
    rw [hadded.recursive, if_neg hne]
    exact hcovers.reaches.imp_right fun hrecursive => ⟨hrecursive, hleft⟩
  have hself : dir ∈ s'.watched.all := (hadded.listed dir).mpr (.inl rfl)
  have hbelow : mode = .recursive → ∀ path, dir <+: path → Covers s'.watched dir path := by
    intro hmode path habove
    exact ⟨hself, habove, .inr (by rw [hadded.recursive, if_pos rfl]; exact hmode)⟩
  constructor
  · intro path hpath
    rw [hadded.recursive] at hpath
    rw [hadded.listed]
    split at hpath
    · exact .inl ‹_›
    · exact .inr ⟨h.listed path hpath.1, hpath.2⟩
  · refine (hadded.listed []).mpr (.inr ⟨h.root, fun hremoved => hdirne ?_⟩)
    exact List.prefix_nil.mp hremoved.2
  · exact unrevoked_came.mp h.unrevoked
  · intro path hpath hunrevoked
    by_cases heq : path = dir
    · subst heq
      simp only [hadded.watch, hadded.recursive, if_true]
      cases mode <;> simp
    · obtain ⟨hlisted, hleft⟩ := ((hadded.listed path).mp hpath).resolve_left heq
      rw [hadded.frame path heq hleft, h.live path hlisted (unrevoked_came.mpr hunrevoked)]
      simp only [hadded.recursive, if_neg heq, hleft, not_false_eq_true, and_true]
  · intro path hpath hunrevoked
    rcases (hadded.listed path).mp hpath with rfl | ⟨hlisted, -⟩
    · exact hdir
    · exact h.present path hlisted (unrevoked_came.mpr hunrevoked)
  · intro path hpath hunrevoked hne
    rcases (hadded.listed path).mp hpath with rfl | ⟨hlisted, hleft⟩
    · obtain ⟨ancestor, hcovers⟩ := hparent hunrevoked
      refine ⟨ancestor, hstays _ _ hcovers fun hremoved => ?_⟩
      have hlength := (hremoved.2.trans hcovers.above).length_le
      have hshorter := Tree.length_dropLast_lt hne
      omega
    · obtain ⟨ancestor, hcovers⟩ := h.parent path hlisted (unrevoked_came.mpr hunrevoked) hne
      refine ⟨ancestor, hstays _ _ hcovers fun hremoved => hleft ⟨hremoved.1, ?_⟩⟩
      exact hremoved.2.trans (hcovers.above.trans (List.dropLast_prefix path))
  · rintro path hpath hwanted hne ⟨ancestor, hcovers, hunrevoked⟩
    rcases (hadded.listed ancestor).mp hcovers.listed with rfl | ⟨hlisted, hleft⟩
    · -- below the directory that is added
      by_cases hmode : mode = .recursive
      · exact .inl ⟨ancestor, hbelow hmode path (hcovers.above.trans (List.dropLast_prefix path)), hunrevoked⟩
      · have hsame : ancestor = path.dropLast := by
          apply hcovers.reaches.resolve_right
          rw [hadded.recursive, if_pos rfl]
          exact hmode
        have hnonRecursive : mode = .nonRecursive := by cases mode <;> simp_all
        have hchild : path ∈ t.children ancestor := Tree.mem_children.mpr ⟨hpath, hne, hsame.symm⟩
        rcases hchildren hunrevoked hnonRecursive path hchild hwanted with ⟨other, hother, hsettled⟩ | hannounced
        · exact .inl ⟨other, hstays _ _ hother fun hremoved => hmode hremoved.1, hsettled⟩
        · exact .inr hannounced
    · have hne' : ancestor ≠ dir := fun heq => habsent (heq ▸ hlisted)
      have hcovers' : Covers s.watched ancestor path.dropLast := by
        refine ⟨hlisted, hcovers.above, hcovers.reaches.imp_right fun hrecursive => ?_⟩
        rw [hadded.recursive, if_neg hne'] at hrecursive
        exact hrecursive.1
      rcases h.wanted path hpath hwanted hne ⟨ancestor, hcovers', unrevoked_came.mpr hunrevoked⟩ with
        ⟨other, hother, hsettled⟩ | ⟨rfl, hsettled⟩ | hannounced
      · have hsettled' := unrevoked_came.mp hsettled
        by_cases hremoved : mode = .recursive ∧ dir <+: other
        · exact .inl ⟨dir, hbelow hremoved.1 path (hremoved.2.trans hother.above),
            hsettled'.of_isPrefix hremoved.2⟩
        · exact .inl ⟨other, hstays _ _ hother hremoved, hsettled'⟩
      · exact .inl ⟨dir, ⟨hself, List.prefix_rfl, .inl rfl⟩, hsettled⟩
      · exact .inr hannounced

theorem Wanted.pathAllowed (hdir : dir ∈ t.dirs) (hwanted : rules.Wanted dir) (hne : dir ≠ []) :
    rules.pathAllowed t dir = true := by
  have hskip : dir.dropLast.any shouldSkipDir = false := by
    rw [List.any_eq_false]
    intro name hname
    obtain ⟨before, after, hsplit⟩ := List.append_of_mem hname
    have habove : before ++ [name] <+: dir := by
      refine List.IsPrefix.trans ⟨after, ?_⟩ (List.dropLast_prefix dir)
      rw [hsplit, List.append_assoc, List.singleton_append]
    have hentered := (hwanted _ habove (by simp)).1
    simp only [Rules.entered, Bool.and_eq_true, List.getLast?_append] at hentered
    simpa using hentered.1
  unfold Rules.pathAllowed
  rw [hskip, if_neg (by simp), if_pos hdir]
  simpa using (hwanted dir List.prefix_rfl hne).2

theorem notice {notice : Notice} (h : Kept rules t s (notice :: rest)) (hclear : ClearNotice rules t s rest notice) :
    Kept rules t (handleNotice rules t s notice) rest := by
  cases notice with
  | gone dir => exact h.gone
  | came dir =>
    show Kept rules t (if dir ∈ t.dirs then addDirectoryWatch rules t s dir else s) rest
    split
    · rename_i hdir
      rcases addDirectoryWatch_cases rules t dir h.listed with ⟨hsame, hcovered⟩ | ⟨hallowed, huncovered, hadded⟩
      · rw [hsame]
        exact h.skip fun _ hwanted hne => hcovered (Wanted.pathAllowed hdir hwanted hne)
      · have hclear' := fun hunrevoked => hclear hdir hallowed hunrevoked huncovered
        exact h.add hdir huncovered hadded (fun hunrevoked => (hclear' hunrevoked).1)
          fun hunrevoked => (hclear' hunrevoked).2
    · rename_i hdir
      exact h.skip fun hmem => absurd hmem hdir

theorem notices_handled {more : List Notice} (h : Kept rules t s (more ++ rest))
    (hclear : ClearNotices rules t s rest more) :
    Kept rules t (more.foldl (handleNotice rules t) s) rest := by
  induction more generalizing s with
  | nil => exact h
  | cons first more ih => exact ih (h.notice hclear.1) hclear.2

/-- A change and the events it causes. -/
theorem change {change : Change t} {more : List Notice} (h : Kept rules t s notices)
    (hreported : Reported s.debouncer change more)
    (hclear : ∀ target, change.arrived = some target → target ∈ s.watched.all → .gone target ∈ more) :
    Kept rules change.apply { s with
      debouncer := fun path => if change.Replaces path then none else s.debouncer path }
      (notices ++ more) := by
  -- a listed directory that is not revoked is neither departed nor replaced
  have hdeparted : ∀ path ∈ s.watched.all, Unrevoked path (notices ++ more) →
      ∀ stem, change.departed = some stem → ¬ stem <+: path := by
    intro path hlisted hunrevoked stem hstem habove
    obtain ⟨hbefore, hafter⟩ := unrevoked_append.mp hunrevoked
    have hreporting := h.reporting_above hlisted hbefore habove (Change.departed_spec hstem).2
    exact hafter stem (hreported.departed stem hstem hreporting) habove
  have harrived : ∀ path ∈ s.watched.all, Unrevoked path (notices ++ more) →
      ∀ target, change.arrived = some target → ¬ target <+: path := by
    intro path hlisted hunrevoked target htarget habove
    obtain ⟨hbefore, hafter⟩ := unrevoked_append.mp hunrevoked
    obtain rfl := (Change.arrived_spec htarget).2.2.1 path (h.present path hlisted hbefore) habove
    exact hafter path (hclear path htarget hlisted) List.prefix_rfl
  constructor
  · exact h.listed
  · exact h.root
  · refine unrevoked_append.mpr ⟨h.unrevoked, fun stem hmem habove => ?_⟩
    obtain ⟨earlier, later, hsplit⟩ := List.append_of_mem hmem
    exact (hreported.honest stem earlier later hsplit).1 (List.prefix_nil.mp habove)
  · intro path hlisted hunrevoked
    have hkept : ¬ change.Replaces path := by
      rintro ⟨stem, hstem, habove⟩
      rcases List.mem_append.mp hstem with hgone | hcame
      · exact hdeparted path hlisted hunrevoked stem (Option.mem_toList.mp hgone) habove
      · exact harrived path hlisted hunrevoked stem (Option.mem_toList.mp hcame) habove
    show (if change.Replaces path then none else s.debouncer path) = _
    rw [if_neg hkept]
    exact h.live path hlisted (unrevoked_append.mp hunrevoked).1
  · intro path hlisted hunrevoked
    exact Change.mem_apply_of_mem (h.present path hlisted (unrevoked_append.mp hunrevoked).1)
      (hdeparted path hlisted hunrevoked)
  · exact fun path hlisted hunrevoked => h.parent path hlisted (unrevoked_append.mp hunrevoked).1
  · rintro path hpath hwanted hne ⟨ancestor, hcovers, hunrevoked⟩
    obtain ⟨hbefore, hafter⟩ := unrevoked_append.mp hunrevoked
    rcases hcovers.reaches with rfl | hrecursive
    · by_cases hinside : ∃ target, change.arrived = some target ∧ target <+: path
      · obtain ⟨target, htarget, habove⟩ := hinside
        by_cases heq : target = path
        · subst heq
          exact .inr (announced_append.mpr (.inl (hreported.arrived target htarget (h.reporting hcovers hbefore))))
        · exact absurd (Tree.isPrefix_dropLast habove heq)
            (harrived _ hcovers.listed hunrevoked target htarget)
      · push Not at hinside
        have hold := (Change.mem_apply_iff hinside).mp hpath
        by_cases hmore : Unrevoked path more
        · rcases h.wanted path hold.1 hwanted hne ⟨_, hcovers, hbefore⟩ with
            ⟨other, hother, hsettled⟩ | hannounced
          · exact .inl ⟨other, hother, unrevoked_append.mpr ⟨hsettled, hmore.of_isPrefix hother.above⟩⟩
          · exact .inr (announced_append.mpr (.inr ⟨hannounced, hmore⟩))
        · -- the directory itself was taken away last, and is announced again
          obtain ⟨stem, earlier, later, hsplit, habove, hlater⟩ := exists_last_gone hmore
          have hsame : stem = path := by
            by_contra hother
            refine hafter stem ?_ (Tree.isPrefix_dropLast habove hother)
            rw [hsplit]
            simp
          subst hsame
          have hagain := announced_of_mem ((hreported.honest stem earlier later hsplit).2 hpath) hlater
          refine .inr (announced_append.mpr (.inl ?_))
          rw [hsplit, announced_append]
          exact .inl hagain
    · exact .inl ⟨ancestor, hcovers.child hrecursive, hunrevoked⟩

end Kept

section Start
variable {rules : Rules} {t : Tree} {mode : Path → RecursiveMode} {dirs : List Path} {dir : Path}

theorem collectLoop_target {stack : List (Path × Bool)} {target : WatchTarget}
    (h : target ∈ collectLoop mode stack dirs) : target.path ∈ dirs ∧ target.recursive = mode target.path := by
  induction dirs generalizing stack with
  | nil => simp [collectLoop] at h
  | cons first rest ih =>
    rw [collectLoop] at h
    split at h
    · exact ⟨List.mem_cons_of_mem _ (ih h).1, (ih h).2⟩
    · rcases List.mem_cons.mp h with rfl | hrest
      · exact ⟨List.mem_cons_self, rfl⟩
      · exact ⟨List.mem_cons_of_mem _ (ih hrest).1, (ih hrest).2⟩

/-- Every directory of the loop has a target of its own or lies under a recursive one, which may still be
on the stack. -/
theorem collectLoop_covers {stack : List (Path × Bool)}
    (hstack : ∀ entry ∈ stack, entry.2 = true → mode entry.1 = .recursive) (hdir : dir ∈ dirs) :
    (∃ target ∈ collectLoop mode stack dirs, target.path <+: dir ∧
      (target.path = dir ∨ mode target.path = .recursive)) ∨
    ∃ entry ∈ stack, entry.1 <+: dir ∧ mode entry.1 = .recursive := by
  induction dirs generalizing stack with
  | nil => simp at hdir
  | cons first rest ih =>
    rw [collectLoop]
    generalize hleft : (stack.dropWhile fun entry => !entry.1.isPrefixOf first) = left
    have hmem : ∀ entry ∈ left, entry ∈ stack := fun entry hentry =>
      (List.dropWhile_suffix _).subset (hleft ▸ hentry)
    have hleftStack : ∀ entry ∈ left, entry.2 = true → mode entry.1 = .recursive :=
      fun entry hentry => hstack entry (hmem entry hentry)
    split
    · rename_i hcovered
      rcases List.mem_cons.mp hdir with rfl | hrest
      · cases left with
        | nil => simp at hcovered
        | cons entry left =>
          have hstop := List.head?_dropWhile_not (fun entry : Path × Bool => !entry.1.isPrefixOf dir) stack
          rw [hleft] at hstop
          have habove : entry.1 <+: dir := by simpa using hstop
          exact .inr ⟨entry, hmem entry List.mem_cons_self, habove,
            hleftStack entry List.mem_cons_self (by simpa using hcovered)⟩
      · rcases ih hleftStack hrest with htarget | ⟨entry, hentry, hcover⟩
        · exact .inl htarget
        · exact .inr ⟨entry, hmem entry hentry, hcover⟩
    · rcases List.mem_cons.mp hdir with rfl | hrest
      · exact .inl ⟨_, List.mem_cons_self, List.prefix_rfl, .inl rfl⟩
      · have hpushed : ∀ entry ∈ (first, decide (mode first = .recursive)) :: left,
            entry.2 = true → mode entry.1 = .recursive := by
          intro entry hentry
          rcases List.mem_cons.mp hentry with rfl | hold
          · exact of_decide_eq_true
          · exact hleftStack entry hold
        rcases ih hpushed hrest with ⟨target, htarget, hcover⟩ | ⟨entry, hentry, habove, hcover⟩
        · exact .inl ⟨target, List.mem_cons_of_mem _ htarget, hcover⟩
        · rcases List.mem_cons.mp hentry with rfl | hold
          · exact .inl ⟨_, List.mem_cons_self, habove, .inr hcover⟩
          · exact .inr ⟨entry, hmem entry hold, habove, hcover⟩

/-- The watches after some targets, the mode of each given by its path. -/
structure Started (mode : Path → RecursiveMode) (paths : List Path) (s : Watches) : Prop where
  listed : ∀ path, path ∈ s.watched.all ↔ path ∈ paths
  recursive : ∀ path, path ∈ s.watched.recursive ↔ path ∈ paths ∧ mode path = .recursive
  watch : ∀ path ∈ paths, s.debouncer path = some (mode path)

theorem Started.startWatch {s : Watches} {paths : List Path} {target : WatchTarget}
    (h : Started mode paths s) (htarget : target.recursive = mode target.path) :
    Started mode (paths ++ [target.path]) (startWatch s target) := by
  obtain ⟨path, targetMode⟩ := target
  obtain rfl : targetMode = mode path := htarget
  constructor
  · intro other
    simp [Filesystem.startWatch, WatchedDirs.insert, Watches.watch, h.listed, or_comm]
  · intro other
    by_cases heq : other = path
    · subst heq
      cases mode other <;> simp [Filesystem.startWatch, WatchedDirs.insert, Watches.watch]
    · cases hmode : mode path <;>
        simp [Filesystem.startWatch, WatchedDirs.insert, Watches.watch, h.recursive, heq]
  · intro other hother
    by_cases heq : other = path
    · subst heq
      simp [Filesystem.startWatch, Watches.watch]
    · have hold : other ∈ paths := by simpa [heq] using hother
      simp [Filesystem.startWatch, Watches.watch, heq, h.watch other hold]

theorem started_foldl {s : Watches} {paths : List Path} {targets : List WatchTarget}
    (h : Started mode paths s) (htargets : ∀ target ∈ targets, target.recursive = mode target.path) :
    Started mode (paths ++ targets.map WatchTarget.path) (targets.foldl startWatch s) := by
  induction targets generalizing s paths with
  | nil => simpa using h
  | cons first rest ih =>
    have hstep := ih (h.startWatch (htargets first List.mem_cons_self))
      fun target htarget => htargets target (List.mem_cons_of_mem _ htarget)
    simpa [List.append_assoc] using hstep

/-- The wanted directories and those above them are walked. -/
theorem Wanted.mem_walk (hdir : dir ∈ t.dirs) (hwanted : rules.Wanted dir) : dir ∈ rules.walk t := by
  simp only [Rules.walk, List.mem_filter, List.all_eq_true, List.mem_inits, Bool.or_eq_true]
  refine ⟨hdir, fun path habove => ?_⟩
  by_cases hne : path = []
  · exact .inl (by simp [hne])
  · exact .inr (hwanted path habove hne).1

theorem parent_mem_walk (h : dir ∈ rules.walk t) (hne : dir ≠ []) : dir.dropLast ∈ rules.walk t := by
  simp only [Rules.walk, List.mem_filter, List.all_eq_true, List.mem_inits] at h ⊢
  exact ⟨t.closed dir h.1 hne, fun path habove => h.2 path (habove.trans (List.dropLast_prefix dir))⟩

theorem kept_initial (rules : Rules) (t : Tree) : Kept rules t (initialWatches rules t) [] := by
  let dirs := (rules.walk t).mergeSort fun a b => a ≤ b
  let mode := collectMode rules t dirs
  have hdirs : ∀ dir, dir ∈ dirs ↔ dir ∈ rules.walk t := fun dir => List.mem_mergeSort
  have hstart : Started mode ((collectLoop mode [] dirs).map WatchTarget.path) (initialWatches rules t) := by
    have hempty : Started mode [] ⟨fun _ => none, ⟨[], []⟩⟩ := by
      constructor <;> simp
    exact started_foldl hempty fun target htarget => (collectLoop_target htarget).2
  have hcovers : ∀ dir ∈ rules.walk t, ∃ ancestor, Covers (initialWatches rules t).watched ancestor dir := by
    intro dir hdir
    have hnone : ∀ entry ∈ ([] : List (Path × Bool)), entry.2 = true → mode entry.1 = .recursive := by simp
    rcases collectLoop_covers hnone ((hdirs dir).mpr hdir) with
      ⟨target, htarget, habove, hreaches⟩ | ⟨entry, hentry, _⟩
    · have hlisted : target.path ∈ (collectLoop mode [] dirs).map WatchTarget.path :=
        List.mem_map_of_mem htarget
      refine ⟨target.path, (hstart.listed _).mpr hlisted, habove, ?_⟩
      exact hreaches.imp_right fun hmode => (hstart.recursive _).mpr ⟨hlisted, hmode⟩
    · simp at hentry
  have hwalked : ∀ path ∈ (initialWatches rules t).watched.all, path ∈ rules.walk t := by
    intro path hpath
    obtain ⟨target, htarget, rfl⟩ := List.mem_map.mp ((hstart.listed path).mp hpath)
    exact (hdirs _).mp (collectLoop_target htarget).1
  constructor
  · exact fun path hpath => (hstart.listed path).mpr ((hstart.recursive path).mp hpath).1
  · have hroot : [] ∈ rules.walk t := by simp [Rules.walk, t.root]
    obtain ⟨ancestor, hancestor⟩ := hcovers [] hroot
    obtain rfl := List.prefix_nil.mp hancestor.above
    exact hancestor.listed
  · exact unrevoked_nil
  · intro path hpath _
    have hmem := (hstart.listed path).mp hpath
    rw [hstart.watch path hmem]
    cases hmode : mode path <;> simp [hstart.recursive, hmem, hmode]
  · exact fun path hpath _ => (List.mem_filter.mp (hwalked path hpath)).1
  · exact fun path hpath _ hne => hcovers _ (parent_mem_walk (hwalked path hpath) hne)
  · intro dir hdir hwanted _ _
    obtain ⟨ancestor, hancestor⟩ := hcovers dir (Wanted.mem_walk hdir hwanted)
    exact .inl ⟨ancestor, hancestor, unrevoked_nil⟩

end Start

section Run
variable {rules : Rules} {t : Tree} {w : World}

theorem kept_next (h : Kept rules w.tree w.watches (noticesOf w.queue)) (action : Action w.tree)
    (hlegal : w.Legal action) (hclear : Clear rules w action) :
    Kept rules (w.next rules action).tree (w.next rules action).watches
      (noticesOf (w.next rules action).queue) := by
  cases action with
  | change change events =>
    have hchange := h.change hlegal hclear
    unfold World.next noticesOf
    rw [List.flatMap_append]
    exact hchange
  | handle =>
    unfold World.next
    unfold Clear at hclear
    cases hqueue : w.queue with
    | nil => exact absurd hqueue hlegal
    | cons event rest =>
      rw [hqueue] at h hclear
      simp only [handleEvent_eq]
      exact h.notices_handled hclear

theorem Kept.covered (h : Kept rules w.tree w.watches []) : w.Covered rules := by
  constructor
  · intro dir hdir hwanted
    rw [← exists_covers_iff h.listed]
    have hsettled : Settled w.watches.watched dir [] := by
      induction hlength : dir.length using Nat.strong_induction_on generalizing dir with
      | _ n ih =>
        by_cases hne : dir = []
        · subst hne
          exact ⟨[], ⟨h.root, List.prefix_rfl, .inl rfl⟩, unrevoked_nil⟩
        · have hshorter := Tree.length_dropLast_lt hne
          have hparent := ih _ (by omega) _ (w.tree.closed dir hdir hne)
            (fun path habove => hwanted path (habove.trans (List.dropLast_prefix dir))) rfl
          exact (h.wanted dir hdir hwanted hne hparent).resolve_right id
    obtain ⟨ancestor, hancestor, -⟩ := hsettled
    exact ⟨ancestor, hancestor⟩
  · exact fun dir hdir => h.present dir hdir unrevoked_nil

theorem kept_run (h : WatchRun rules (Clear rules) (.initial rules t) w) :
    Kept rules w.tree w.watches (noticesOf w.queue) := by
  induction h with
  | start => exact kept_initial rules t
  | step _ action hlegal hclear ih => exact kept_next ih action hlegal hclear

/-- In a run without unannounced directories every handled state covers the tree. -/
theorem watch_coverage (h : WatchRun rules (Clear rules) (.initial rules t) w) (hqueue : w.queue = []) :
    w.Covered rules := by
  have hkept := kept_run h
  rw [hqueue] at hkept
  exact hkept.covered

end Run

section Created
variable {debouncer : Path → Option RecursiveMode} {t : Tree} {path : Path}

theorem reported_create (hparent : path.dropLast ∈ t.dirs) (h : path ∉ t.dirs) :
    Reported debouncer (Change.create path hparent h) [.came path] where
  departed := by simp [Change.departed]
  arrived target htarget _ := by
    obtain rfl := Option.some.inj htarget
    exact .inl ⟨rfl, unrevoked_nil⟩
  honest stem earlier later hsplit := by
    have hmem : Notice.gone stem ∈ [Notice.came path] := by simp [hsplit]
    simp at hmem

theorem reported_create_unseen (hparent : path.dropLast ∈ t.dirs) (h : path ∉ t.dirs)
    (hunseen : ¬ Reporting debouncer path.dropLast) :
    Reported debouncer (Change.create path hparent h) [] where
  departed := by simp [Change.departed]
  arrived target htarget hreporting := by
    obtain rfl := Option.some.inj htarget
    exact absurd hreporting hunseen
  honest stem earlier later hsplit := by simp at hsplit

end Created

/-- A new directory in a covered one, with nothing in it yet, is added without a miss. -/
theorem clear_handle_leaf {rules : Rules} {w : World} {event : Event} {path : Path}
    (hqueue : w.queue = [event]) (hnotices : event.notices = [.came path])
    (hparent : ∃ ancestor, Covers w.watches.watched ancestor path.dropLast)
    (hleaf : w.tree.children path = []) : Clear rules w .handle := by
  unfold Clear
  rw [hqueue]
  simp only [hnotices, noticesOf, List.flatMap_nil]
  refine ⟨fun _ _ _ _ => ⟨hparent, fun _ child hchild => ?_⟩, trivial⟩
  rw [hleaf] at hchild
  exact absurd hchild List.not_mem_nil

/-- Nothing is ignored, and directories are watched one by one. -/
def plainRules : Rules := ⟨fun _ _ => .none, fun _ => false, false⟩

theorem initial_plainRules : World.initial plainRules .single =
    ⟨.single, ⟨Function.update (fun _ => none) [] (some .nonRecursive), ⟨[[]], []⟩⟩, []⟩ := by
  simp [World.initial, initialWatches, collectWatchDirectories, Rules.walk, Tree.single, plainRules,
    collectLoop, collectMode, startWatch, Watches.watch, WatchedDirs.insert]

/-- A directory in the root, and one in it that is created once the first is watched. -/
theorem watch_coverage_nested :
    ∃ w, WatchRun plainRules (Clear plainRules) (.initial plainRules .single) w ∧ w.queue = [] ∧
      ["a", "b"] ∈ w.tree.dirs ∧ w.Covered plainRules := by
  let outer : Change .single := .create ["a"] (by decide) (by decide)
  let inner : Change outer.apply := .create ["a", "b"] (by decide) (by decide)
  let w₀ : World := ⟨.single, ⟨Function.update (fun _ => none) [] (some .nonRecursive), ⟨[[]], []⟩⟩, []⟩
  let w₁ := w₀.next plainRules (.change outer [⟨.create, [["a"]]⟩])
  let w₂ := w₁.next plainRules .handle
  let w₃ := w₂.next plainRules (.change inner [⟨.create, [["a", "b"]]⟩])
  let w₄ := w₃.next plainRules .handle
  have hstart : World.initial plainRules .single = w₀ := initial_plainRules
  have hlisted₁ : w₁.watches.watched = ⟨[[]], []⟩ := rfl
  have hlisted₃ : w₃.watches.watched = ⟨[["a"], []], []⟩ := by decide
  have hrun₁ : WatchRun plainRules (Clear plainRules) w₀ w₁ := by
    apply WatchRun.start.step
    · exact reported_create _ _
    · rintro _ ⟨⟩ hmem
      exact absurd hmem (by decide)
  have hrun₂ : WatchRun plainRules (Clear plainRules) w₀ w₂ := by
    apply hrun₁.step
    · exact List.cons_ne_nil _ _
    · apply clear_handle_leaf rfl rfl _ (by decide)
      exact ⟨[], by rw [hlisted₁]; constructor <;> decide⟩
  have hrun₃ : WatchRun plainRules (Clear plainRules) w₀ w₃ := by
    apply hrun₂.step
    · exact reported_create _ _
    · rintro _ ⟨⟩ hmem
      exact absurd hmem (by decide)
  have hrun : WatchRun plainRules (Clear plainRules) w₀ w₄ := by
    apply hrun₃.step
    · exact List.cons_ne_nil _ _
    · apply clear_handle_leaf rfl rfl _ (by decide)
      exact ⟨["a"], by rw [hlisted₃]; constructor <;> decide⟩
  refine ⟨w₄, hstart ▸ hrun, rfl, by decide, ?_⟩
  exact watch_coverage (hstart ▸ hrun) rfl

/-- A directory that is created in a new one before that one is watched is missed. -/
theorem nested_directory_missed :
    ∃ w, WatchRun plainRules (fun _ _ => True) (.initial plainRules .single) w ∧ w.queue = [] ∧
      ["a", "b"] ∈ w.tree.dirs ∧ ¬ w.Covered plainRules := by
  let outer : Change .single := .create ["a"] (by decide) (by decide)
  let inner : Change outer.apply := .create ["a", "b"] (by decide) (by decide)
  let w₀ : World := ⟨.single, ⟨Function.update (fun _ => none) [] (some .nonRecursive), ⟨[[]], []⟩⟩, []⟩
  let w₁ := w₀.next plainRules (.change outer [⟨.create, [["a"]]⟩])
  let w₂ := w₁.next plainRules (.change inner [])
  let w₃ := w₂.next plainRules .handle
  have hstart : World.initial plainRules .single = w₀ := initial_plainRules
  have hunseen : ¬ Reporting w₁.watches.debouncer ["a"] := by
    rintro ⟨ancestor, mode, hmode, habove, hreaches⟩
    have hcases : ∀ path ∈ ["a"].inits, path = [] ∨ path = ["a"] := by decide
    rcases hcases ancestor ((List.mem_inits _ _).mpr habove) with rfl | rfl
    · obtain rfl : RecursiveMode.nonRecursive = mode := Option.some.inj hmode
      exact absurd hreaches (by decide)
    · have hlost : w₁.watches.debouncer ["a"] = none := by decide
      simp [hlost] at hmode
  have hrun : WatchRun plainRules (fun _ _ => True) w₀ w₃ := by
    have hrun₁ : WatchRun plainRules (fun _ _ => True) w₀ w₁ :=
      WatchRun.start.step _ (reported_create _ _) trivial
    have hrun₂ : WatchRun plainRules (fun _ _ => True) w₀ w₂ :=
      hrun₁.step _ (reported_create_unseen _ _ hunseen) trivial
    exact hrun₂.step _ (List.cons_ne_nil _ _) trivial
  refine ⟨w₃, hstart ▸ hrun, rfl, by decide, ?_⟩
  rintro ⟨hcovered, -⟩
  have hwanted : plainRules.Wanted ["a", "b"] := by
    have hall : ∀ path ∈ ["a", "b"].inits, path ≠ [] → plainRules.entered path = true ∧
        plainRules.matchedPathOrAnyParents path true ≠ .ignore := by decide
    exact fun path habove => hall path ((List.mem_inits _ _).mpr habove)
  exact absurd (hcovered ["a", "b"] (by decide) hwanted) (by decide)

end VibeKanban.Filesystem
