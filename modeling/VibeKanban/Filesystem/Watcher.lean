import VibeKanban.Filesystem.Tree
import Mathlib.Data.List.Sort
import Mathlib.Data.String.Basic

/-! The watches of a directory tree: which directories are watched at the start and after each event. -/
namespace VibeKanban.Filesystem

inductive Match where
  | none | ignore | whitelist
  deriving DecidableEq, Repr

inductive RecursiveMode where
  | recursive | nonRecursive
  deriving DecidableEq, Repr

/-- The ignore files as they were read at the start, and the platform. The collected patterns answer
for a path or a directory above it, `walkIgnored` for the walk, which reads the ignore files itself. -/
structure Rules where
  matchedPathOrAnyParents : Path → Bool → Match
  walkIgnored : Path → Bool
  platformSupportsNativeRecursive : Bool

def alwaysSkipDirs : List String := [".git", "node_modules"]

def shouldSkipDir (name : String) : Bool := alwaysSkipDirs.contains name

/-- The extension begins at the last dot that is not the first character. -/
def hasExtension (name : String) : Bool := name.toList.tail.contains '.'

namespace Rules
variable (rules : Rules)

def pathAllowed (t : Tree) (path : Path) : Bool :=
  if path.dropLast.any shouldSkipDir then false
  else
    let isDir := if path ∈ t.dirs then true else !(path.getLast?.any hasExtension)
    rules.matchedPathOrAnyParents path isDir ≠ .ignore

/-- The walk goes into a directory other than the root. -/
def entered (path : Path) : Bool := !(path.getLast?.any shouldSkipDir) && !rules.walkIgnored path

def walk (t : Tree) : List Path :=
  t.dirs.filter fun dir => dir.inits.all fun path => path.isEmpty || rules.entered path

end Rules

structure WatchTarget where
  path : Path
  recursive : RecursiveMode
  deriving DecidableEq, Repr

structure WatchedDirs where
  all : List Path
  recursive : List Path
  deriving DecidableEq, Repr

namespace WatchedDirs
variable (watched : WatchedDirs)

def contains (path : Path) : Bool := watched.all.contains path

def hasRecursiveCover (path : Path) : Bool :=
  watched.recursive.any fun ancestor => ancestor ≠ path && ancestor.isPrefixOf path

def insert (path : Path) (mode : RecursiveMode) : WatchedDirs where
  all := List.insert path watched.all
  recursive :=
    match mode with
    | .recursive => List.insert path watched.recursive
    | .nonRecursive => watched.recursive.filter (· ≠ path)

/-- What is left, and the directories that were taken out. -/
def removeWithin (stem : Path) (includeStem : Bool) : WatchedDirs × List Path :=
  let toRemove := watched.all.filter fun path =>
    stem.isPrefixOf path && (includeStem || path ≠ stem)
  ({ all := watched.all.filter (· ∉ toRemove), recursive := watched.recursive.filter (· ∉ toRemove) },
    toRemove)

def removeDirAndChildren (stem : Path) : WatchedDirs × List Path := watched.removeWithin stem true

def removeChildrenOnly (stem : Path) : WatchedDirs × List Path := watched.removeWithin stem false

end WatchedDirs

/-- A directory has a skipped or ignored directory somewhere below it. -/
def hasIgnoredDescendants (rules : Rules) (t : Tree) (allowedDirs : List Path) (dir : Path) : Bool :=
  (t.children dir).attach.any fun path =>
    path.1.getLast?.any shouldSkipDir ||
      (!allowedDirs.contains path.1 && !rules.pathAllowed t path.1) ||
      hasIgnoredDescendants rules t allowedDirs path.1
termination_by t.depth - dir.length
decreasing_by
  obtain ⟨hmem, hne, hparent⟩ := Tree.mem_children.mp path.2
  have hdepth := Tree.length_le_depth hmem
  have hshorter := Tree.length_dropLast_lt hne
  rw [hparent] at hshorter
  omega

section Collect
variable (rules : Rules) (t : Tree)

/-- The mode of a directory of the walk. -/
def collectMode (allowedDirs : List Path) (path : Path) : RecursiveMode :=
  if rules.platformSupportsNativeRecursive then
    if hasIgnoredDescendants rules t allowedDirs path then .nonRecursive else .recursive
  else .nonRecursive

/-- The loop over the sorted directories, with the stack of ancestors and whether each is recursive. -/
def collectLoop (mode : Path → RecursiveMode) : List (Path × Bool) → List Path → List WatchTarget
  | _, [] => []
  | ancestorStack, path :: rest =>
    let stack := ancestorStack.dropWhile fun entry => !entry.1.isPrefixOf path
    if stack.head?.any (·.2) then collectLoop mode stack rest
    else ⟨path, mode path⟩ :: collectLoop mode ((path, mode path = .recursive) :: stack) rest

def collectWatchDirectories : List WatchTarget :=
  let allowedDirs := (rules.walk t).mergeSort fun a b => a ≤ b
  collectLoop (collectMode rules t allowedDirs) [] allowedDirs

/-- The mode of a directory that is added later, from the directories in it. -/
def determineWatchMode (path : Path) : RecursiveMode :=
  if rules.platformSupportsNativeRecursive then
    if (t.children path).any fun child =>
      child.getLast?.any shouldSkipDir || !rules.pathAllowed t child then .nonRecursive
    else .recursive
  else .nonRecursive

end Collect

/-- The watches of the debouncer and the list kept of them. -/
structure Watches where
  debouncer : Path → Option RecursiveMode
  watched : WatchedDirs

namespace Watches

def watch (s : Watches) (path : Path) (mode : RecursiveMode) : Watches :=
  { s with debouncer := Function.update s.debouncer path (some mode) }

def unwatchAll (s : Watches) (paths : List Path) : Watches :=
  { s with debouncer := fun path => if path ∈ paths then none else s.debouncer path }

end Watches

section Handle
variable (rules : Rules) (t : Tree)

def addDirectoryWatch (s : Watches) (dir : Path) : Watches :=
  if !rules.pathAllowed t dir then s
  else if s.watched.contains dir || s.watched.hasRecursiveCover dir then s
  else
    let mode := determineWatchMode rules t dir
    let s := s.watch dir mode
    let s :=
      if mode = .recursive then
        let (watched, removed) := s.watched.removeChildrenOnly dir
        { s.unwatchAll removed with watched }
      else s
    { s with watched := s.watched.insert dir mode }

def removeDirectoryWatch (s : Watches) (dir : Path) : Watches :=
  let (watched, removed) := s.watched.removeDirAndChildren dir
  { s.unwatchAll removed with watched }

def startWatch (s : Watches) (target : WatchTarget) : Watches :=
  let s := s.watch target.path target.recursive
  { s with watched := s.watched.insert target.path target.recursive }

/-- The watches at the start. -/
def initialWatches : Watches :=
  (collectWatchDirectories rules t).foldl startWatch ⟨fun _ => none, ⟨[], []⟩⟩

inductive RenameMode where
  | any | target | source | both | other
  deriving DecidableEq, Repr

inductive EventKind where
  | create
  | remove
  | rename (mode : RenameMode)
  | other
  deriving DecidableEq, Repr

structure Event where
  kind : EventKind
  paths : List Path
  deriving DecidableEq, Repr

/-- The watch of a path that may be a directory. -/
def addIfDir (s : Watches) (path : Path) : Watches :=
  if path ∈ t.dirs then addDirectoryWatch rules t s path else s

def handleEvent (s : Watches) (event : Event) : Watches :=
  match event.kind with
  | .create => event.paths.foldl (addIfDir rules t) s
  | .remove => event.paths.foldl removeDirectoryWatch s
  | .rename .source => event.paths.foldl removeDirectoryWatch s
  | .rename .target => event.paths.foldl (addIfDir rules t) s
  | .rename .both =>
    match event.paths with
    | [] => s
    | first :: rest =>
      let s := removeDirectoryWatch s first
      match rest.getLast? with
      | some last => addIfDir rules t s last
      | none => s
  | .rename .any | .rename .other =>
    event.paths.foldl (addIfDir rules t) (event.paths.foldl removeDirectoryWatch s)
  | .other => s

/-- What an event says of a path. -/
inductive Notice where
  | gone (path : Path)
  | came (path : Path)
  deriving DecidableEq, Repr

def Event.notices (event : Event) : List Notice :=
  match event.kind with
  | .create | .rename .target => event.paths.map .came
  | .remove | .rename .source => event.paths.map .gone
  | .rename .both =>
    match event.paths with
    | [] => []
    | first :: rest => .gone first :: rest.getLast?.toList.map .came
  | .rename .any | .rename .other => event.paths.map .gone ++ event.paths.map .came
  | .other => []

def handleNotice (s : Watches) : Notice → Watches
  | .gone path => removeDirectoryWatch s path
  | .came path => addIfDir rules t s path

/-- An event is handled notice by notice. -/
theorem handleEvent_eq (s : Watches) (event : Event) :
    handleEvent rules t s event = event.notices.foldl (handleNotice rules t) s := by
  obtain ⟨kind, paths⟩ := event
  cases kind with
  | create => simp [handleEvent, Event.notices, List.foldl_map, handleNotice]
  | remove => simp [handleEvent, Event.notices, List.foldl_map, handleNotice]
  | rename mode =>
    cases mode with
    | both =>
      cases paths with
      | nil => rfl
      | cons first rest =>
        cases hlast : rest.getLast? <;> simp [handleEvent, Event.notices, handleNotice, hlast]
    | any => simp [handleEvent, Event.notices, List.foldl_append, List.foldl_map, handleNotice]
    | target => simp [handleEvent, Event.notices, List.foldl_map, handleNotice]
    | source => simp [handleEvent, Event.notices, List.foldl_map, handleNotice]
    | other => simp [handleEvent, Event.notices, List.foldl_append, List.foldl_map, handleNotice]
  | other => rfl

end Handle

end VibeKanban.Filesystem
