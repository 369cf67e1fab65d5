import Mathlib
import VibeKanban.Lib.Machine

/-! The stream of a repository's diffs: file changes, reconciles and resets each keep the set of paths
that were sent and emit patches of their own, and a client applies the patches to its map. -/
namespace VibeKanban.DiffStream
open Lib

inductive DiffChangeKind where
  | added
  | deleted
  | modified
  | renamed
  | copied
  | permissionChange
  deriving DecidableEq, Repr

structure Diff (U : Type) where
  change : DiffChangeKind
  oldPath : Option String
  newPath : Option String
  oldContent : Option String
  newContent : Option String
  contentOmitted : Bool
  additions : Option ℕ
  deletions : Option ℕ
  repoId : Option U
  deriving DecidableEq, Repr

variable {U C S : Type}

def diffPath (diff : Diff U) : String := (diff.newPath.or diff.oldPath).getD ""

def prefixPath (path : String) : Option String → String
  | some p => p ++ "/" ++ path
  | none => path

def maxCumulativeDiffBytes : ℕ := 200 * 1024 * 1024

def usizeMax : ℕ := 2 ^ 64 - 1

/-- The constants of one stream; `lineChangeCounts` counts the added and deleted lines. -/
structure DiffStreamArgs (U : Type) where
  statsOnly : Bool
  pathPrefix : Option String
  repoId : U
  lineChangeCounts : String → String → ℕ × ℕ

def omitDiffContents (args : DiffStreamArgs U) (diff : Diff U) : Diff U :=
  let counted :=
    if diff.additions.isNone && diff.deletions.isNone &&
        (diff.oldContent.isSome || diff.newContent.isSome) then
      let counts := args.lineChangeCounts (diff.oldContent.getD "") (diff.newContent.getD "")
      { diff with additions := some counts.1, deletions := some counts.2 }
    else diff
  { counted with oldContent := none, newContent := none, contentOmitted := true }

/-- The diff as it is sent, and the bytes sent so far. -/
def applyStreamOmitPolicy (args : DiffStreamArgs U) (diff : Diff U) (sentBytes : ℕ) : Diff U × ℕ :=
  if args.statsOnly then (omitDiffContents args diff, sentBytes)
  else
    let size := (diff.oldContent.elim 0 String.utf8ByteSize) +
      (diff.newContent.elim 0 String.utf8ByteSize)
    if size = 0 then (diff, sentBytes)
    else if min (sentBytes + size) usizeMax > maxCumulativeDiffBytes then
      (omitDiffContents args diff, sentBytes)
    else (diff, sentBytes + size)

/-- The paths with their prefix, and the repository. -/
def labelDiff (args : DiffStreamArgs U) (diff : Diff U) : Diff U := { diff with
  oldPath := diff.oldPath.map fun old => prefixPath old args.pathPrefix
  newPath := diff.newPath.map fun new => prefixPath new args.pathPrefix
  repoId := some args.repoId }

/-- The patches on `/entries/<repo>`. -/
inductive DiffOp (U : Type) where
  | addRepoDiff (path : String) (diff : Diff U)
  | removeRepoDiff (path : String)
  | replaceRepoDiffs (entries : String → Option (Diff U))

abbrev ClientDiffs (U : Type) := String → Option (Diff U)

/-- A remove needs its key. -/
def applyOp (map : ClientDiffs U) : DiffOp U → Option (ClientDiffs U)
  | .addRepoDiff path diff => some (Function.update map path (some diff))
  | .removeRepoDiff path => if (map path).isSome then some (Function.update map path none) else none
  | .replaceRepoDiffs entries => some entries

def applyPatch (map : ClientDiffs U) (patch : List (DiffOp U)) : Option (ClientDiffs U) :=
  patch.foldlM applyOp map

/-- `knownPaths` is in the order in which the set is iterated. -/
structure DiffStreamManager (C S : Type) where
  cumulative : ℕ
  knownPaths : List String
  sentFileStats : String → Option S
  currentBaseCommit : C
  currentTargetBranch : String
  lastHeadCommit : Option C
  reconcileCycle : UInt8
  baseLookupErrorLogged : Bool
  needsPostResetDiscovery : Bool
  pendingReset : Bool

def DiffStreamManager.new (baseCommit : C) (targetBranch : String) : DiffStreamManager C S :=
  ⟨0, [], fun _ => none, baseCommit, targetBranch, none, 0, false, false, false⟩

/-- What the file system and git answer while changed paths are diffed: modification times and sizes,
and the diffs against the base. -/
structure DiffAnswer (U S : Type) where
  metadata : String → Option S
  diffs : Option (List (Diff U))

namespace DiffStreamManager
variable (args : DiffStreamArgs U) (m : DiffStreamManager C S)

/-- A path enters the known paths, with what the file system says of it. -/
def see (metadata : String → Option S) (path : String) : DiffStreamManager C S := { m with
  knownPaths := if path ∈ m.knownPaths then m.knownPaths else m.knownPaths ++ [path]
  sentFileStats := match metadata path with
    | some stat => Function.update m.sentFileStats path (some stat)
    | none => m.sentFileStats }

def forget (path : String) : DiffStreamManager C S := { m with
  knownPaths := m.knownPaths.filter fun known => known ≠ path
  sentFileStats := Function.update m.sentFileStats path none }

/-- The diffs are sent with the contents that the policy leaves. -/
def addDiffs (metadata : String → Option S) (m : DiffStreamManager C S) :
    List (Diff U) → DiffStreamManager C S × List (DiffOp U)
  | [] => (m, [])
  | diff :: rest =>
    let path := diffPath diff
    let (sent, cumulative) := applyStreamOmitPolicy args diff m.cumulative
    let (last, ops) := addDiffs metadata { m.see metadata path with cumulative := cumulative } rest
    (last, .addRepoDiff path (labelDiff args sent) :: ops)

/-- The changed paths without a diff are removed. -/
def removeOthers (withDiffs : List String) (m : DiffStreamManager C S) :
    List String → DiffStreamManager C S × List (DiffOp U)
  | [] => (m, [])
  | path :: rest =>
    if path ∈ withDiffs then removeOthers withDiffs m rest
    else
      let (last, ops) := removeOthers withDiffs (m.forget path) rest
      (last, .removeRepoDiff path :: ops)

def processFileChanges (changedPaths : List String) (answer : DiffAnswer U S) :
    DiffStreamManager C S × List (DiffOp U) :=
  match answer.diffs with
  | none => (m, [])
  | some diffs =>
    let (added, addOps) := addDiffs args answer.metadata m diffs
    let (last, removeOps) := removeOthers (diffs.map diffPath) added changedPaths
    (last, addOps ++ removeOps)

/-- The contents that the policy leaves, and the bytes sent. -/
def omitAll : List (Diff U) → ℕ → List (Diff U) × ℕ
  | [], sentBytes => ([], sentBytes)
  | diff :: rest, sentBytes =>
    let (sent, bytes) := applyStreamOmitPolicy args diff sentBytes
    let (sents, last) := omitAll rest bytes
    (sent :: sents, last)

/-- All known paths are forgotten before the diffs are fetched. -/
def resetStream (answer : DiffAnswer U S) : DiffStreamManager C S × List (DiffOp U) :=
  let cleared := { m with
    needsPostResetDiscovery := true
    pendingReset := false
    cumulative := 0
    sentFileStats := fun _ => none
    knownPaths := [] }
  match answer.diffs with
  | none => (cleared, [])
  | some diffs =>
    let (sent, cumulative) := omitAll args diffs 0
    let last := sent.foldl (fun m diff => m.see answer.metadata (diffPath diff))
      { cleared with cumulative := cumulative }
    let entries := sent.foldl
      (fun map diff => Function.update map (diffPath diff) (some (labelDiff args diff)))
      fun _ => none
    (last, [.replaceRepoDiffs entries])

end DiffStreamManager

/-- What git and the file system answer in a reconcile. -/
structure ReconcileAnswer (U C S : Type) where
  currentHead : Option C
  newBase : Option C
  isHeadChildOf : C → Bool
  metadata : String → Option S
  freshPaths : Option (List String)
  diffing : DiffAnswer U S

namespace DiffStreamManager
variable [DecidableEq C] [DecidableEq S] (args : DiffStreamArgs U) (m : DiffStreamManager C S)

def statChanged (metadata : String → Option S) : List String :=
  m.knownPaths.filter fun path => metadata path ≠ m.sentFileStats path

/-- The part of a reconcile after the check of the head. -/
def reconcilePaths (forceDiscovery : Bool) (answer : ReconcileAnswer U C S) :
    DiffStreamManager C S × List (DiffOp U) :=
  let changed := m.statChanged answer.metadata
  let cycled := { m with reconcileCycle := m.reconcileCycle + 1 }
  let runDiscovery := forceDiscovery || m.needsPostResetDiscovery || !changed.isEmpty ||
    cycled.reconcileCycle % 6 = 0
  if changed.isEmpty && !runDiscovery then (cycled, [])
  else
    match answer.freshPaths with
    | none => (cycled, [])
    | some fresh =>
      let removed := m.knownPaths.filter fun path => path ∉ fresh
      let kept := removed.foldl forget { cycled with needsPostResetDiscovery := false }
      let newFiles := fresh.filter fun path => path ∉ kept.knownPaths
      let pathsToDiff := changed.filter (fun path => path ∈ fresh) ++ newFiles
      let removeOps := removed.map .removeRepoDiff
      if pathsToDiff.isEmpty then (kept, removeOps)
      else
        let (last, ops) := processFileChanges args kept pathsToDiff answer.diffing
        (last, removeOps ++ ops)

def isChildOfCurrentHead (answer : ReconcileAnswer U C S) : Bool :=
  match m.lastHeadCommit with
  | some last => answer.isHeadChildOf last
  | none => false

def handleReconcile (answer : ReconcileAnswer U C S) : DiffStreamManager C S × List (DiffOp U) :=
  if m.pendingReset then (m, [])
  else if answer.currentHead = m.lastHeadCommit then reconcilePaths args m false answer
  else
    match answer.newBase with
    | none => reconcilePaths args { m with baseLookupErrorLogged := true } true answer
    | some base =>
      let seen := { m with lastHeadCommit := answer.currentHead, baseLookupErrorLogged := false }
      if base ≠ m.currentBaseCommit then
        resetStream args { seen with currentBaseCommit := base } answer.diffing
      else if m.isChildOfCurrentHead answer then reconcilePaths args seen true answer
      else resetStream args seen answer.diffing

end DiffStreamManager

/-- The events that the manager's loop handles, with what it is told while it handles them. -/
inductive DiffEvent (U C S : Type) where
  | filesystem (changedPaths : List String) (answer : DiffAnswer U S)
  | gitStateChange (isChild : Bool)
  | checkTarget (targetBranch : String) (newBase : Option C) (answer : DiffAnswer U S)
  | reconcile (answer : ReconcileAnswer U C S)
  | debouncedReset (newBase currentHead : Option C) (answer : DiffAnswer U S)

section Stream
variable [DecidableEq C] [DecidableEq S] (args : DiffStreamArgs U)

def handleEvent (m : DiffStreamManager C S) :
    DiffEvent U C S → DiffStreamManager C S × List (DiffOp U)
  | .filesystem changedPaths answer =>
    if changedPaths.isEmpty then (m, []) else m.processFileChanges args changedPaths answer
  | .gitStateChange isChild => (if isChild then m else { m with pendingReset := true }, [])
  | .checkTarget targetBranch newBase answer =>
    if targetBranch = m.currentTargetBranch then (m, [])
    else
      match newBase with
      | none => (m, [])
      | some base => DiffStreamManager.resetStream args
          { m with currentTargetBranch := targetBranch, currentBaseCommit := base } answer
  | .reconcile answer => m.handleReconcile args answer
  | .debouncedReset newBase currentHead answer =>
    if m.pendingReset then DiffStreamManager.resetStream args { m with
      currentBaseCommit := newBase.getD m.currentBaseCommit
      lastHeadCommit := currentHead } answer
    else (m, [])

/-- The loop ends where a reset fails, except in a reconcile. -/
def endsStream (m : DiffStreamManager C S) : DiffEvent U C S → Bool
  | .checkTarget targetBranch newBase answer =>
    targetBranch ≠ m.currentTargetBranch && newBase.isSome && answer.diffs.isNone
  | .debouncedReset _ _ answer => m.pendingReset && answer.diffs.isNone
  | _ => false

/-- The manager, the client's map of the repository after all patches, and whether the stream ended. -/
structure Session (U C S : Type) where
  manager : DiffStreamManager C S
  client : ClientDiffs U
  ended : Bool

/-- A stream starts with a reset. -/
def Session.start (baseCommit : C) (targetBranch : String) (currentHead : Option C)
    (answer : DiffAnswer U S) : Option (Session U C S) :=
  let (manager, ops) := (DiffStreamManager.new baseCommit targetBranch).resetStream args answer
  (applyPatch (fun _ => none) ops).map fun client =>
    if answer.diffs.isNone then ⟨manager, client, true⟩
    else ⟨{ manager with lastHeadCommit := currentHead }, client, false⟩

/-- The event is handled and its patches applied, if they can be. -/
def Session.step (s : Session U C S) (event : DiffEvent U C S) : Option (Session U C S) :=
  if s.ended then some s
  else
    let (manager, ops) := handleEvent args s.manager event
    (applyPatch s.client ops).map fun client => ⟨manager, client, endsStream s.manager event⟩

/-- The client has the paths that the manager knows. -/
structure Tracks (m : DiffStreamManager C S) (map : ClientDiffs U) : Prop where
  keys : ∀ path, (map path).isSome ↔ path ∈ m.knownPaths
  nodup : m.knownPaths.Nodup

/-- The changed paths without a diff are known, and none is named twice. -/
def ChangesClean (m : DiffStreamManager C S) (changedPaths : List String)
    (answer : DiffAnswer U S) : Prop :=
  ∀ diffs ∈ answer.diffs,
    (changedPaths.filter fun path => path ∉ diffs.map diffPath).Nodup ∧
      ∀ path ∈ changedPaths, path ∉ diffs.map diffPath → path ∈ m.knownPaths

/-- Where the diffs cannot be fetched nothing is known. -/
def ResetClean (m : DiffStreamManager C S) (answer : DiffAnswer U S) : Prop :=
  answer.diffs = none → m.knownPaths = []

/-- The new paths that a reconcile finds have a diff when they are diffed. -/
def ReconcileClean (m : DiffStreamManager C S) (forceDiscovery : Bool)
    (answer : ReconcileAnswer U C S) : Prop :=
  let changed := m.statChanged answer.metadata
  (forceDiscovery || m.needsPostResetDiscovery || !changed.isEmpty ||
      (m.reconcileCycle + 1) % 6 = 0) = true →
    ∀ fresh ∈ answer.freshPaths, ∀ diffs ∈ answer.diffing.diffs,
      ∀ path ∈ fresh, path ∉ m.knownPaths → path ∈ diffs.map diffPath

/-- The condition on a reconcile in the branch that it takes. -/
def TickClean (m : DiffStreamManager C S) (answer : ReconcileAnswer U C S) : Prop :=
  if m.pendingReset then True
  else if answer.currentHead = m.lastHeadCommit then ReconcileClean m false answer
  else
    match answer.newBase with
    | none => ReconcileClean m true answer
    | some base =>
      if base ≠ m.currentBaseCommit ∨ m.isChildOfCurrentHead answer = false then
        ResetClean m answer.diffing
      else ReconcileClean m true answer

def Clean (m : DiffStreamManager C S) : DiffEvent U C S → Prop
  | .filesystem changedPaths answer => ChangesClean m changedPaths answer
  | .gitStateChange _ => True
  | .checkTarget targetBranch newBase answer =>
    targetBranch ≠ m.currentTargetBranch → newBase.isSome → ResetClean m answer
  | .reconcile answer => TickClean m answer
  | .debouncedReset _ _ answer => m.pendingReset → ResetClean m answer

end Stream

section Lemmas
variable {args : DiffStreamArgs U} {m : DiffStreamManager C S} {map : ClientDiffs U}

theorem applyPatch_append (before later : List (DiffOp U)) :
    applyPatch map (before ++ later) = (applyPatch map before).bind fun map => applyPatch map later :=
  List.foldlM_append

theorem Tracks.see (h : Tracks m map) (metadata : String → Option S) (path : String) (diff : Diff U) :
    Tracks (m.see metadata path) (Function.update map path (some diff)) := by
  constructor
  · intro other
    have hknown : other ∈ (m.see metadata path).knownPaths ↔ other = path ∨ other ∈ m.knownPaths := by
      simp only [DiffStreamManager.see]
      split_ifs with hmem
      · constructor
        · exact .inr
        · rintro (rfl | hother)
          · exact hmem
          · exact hother
      · simp [or_comm]
    rw [hknown, Function.update_apply]
    split_ifs with hpath
    · simp [hpath]
    · simp [hpath, h.keys other]
  · simp only [DiffStreamManager.see]
    split_ifs with hmem
    · exact h.nodup
    · refine List.nodup_append.mpr ⟨h.nodup, List.nodup_singleton path, ?_⟩
      rintro other hother _ hpath rfl
      rw [List.mem_singleton.mp hpath] at hother
      exact hmem hother

theorem Tracks.forget (h : Tracks m map) (path : String) :
    Tracks (m.forget path) (Function.update map path none) := by
  constructor
  · intro other
    rw [Function.update_apply]
    split_ifs with hpath
    · simp [DiffStreamManager.forget, hpath]
    · simp [DiffStreamManager.forget, hpath, h.keys other]
  · exact h.nodup.filter _

theorem Tracks.same {m' : DiffStreamManager C S} (h : Tracks m map)
    (hknown : m'.knownPaths = m.knownPaths) : Tracks m' map :=
  ⟨fun path => by rw [hknown]; exact h.keys path, by rw [hknown]; exact h.nodup⟩

theorem mem_see {metadata : String → Option S} {path other : String} :
    other ∈ (m.see metadata path).knownPaths ↔ other ∈ m.knownPaths ∨ other = path := by
  simp only [DiffStreamManager.see]
  split_ifs with hmem
  · constructor
    · exact .inl
    · rintro (hother | rfl)
      · exact hother
      · exact hmem
  · simp

/-- Adds can always be applied. -/
theorem addDiffs_spec (args : DiffStreamArgs U) (h : Tracks m map) (metadata : String → Option S) (diffs : List (Diff U)) :
    ∃ map', applyPatch map (DiffStreamManager.addDiffs args metadata m diffs).2 = some map' ∧
      Tracks (DiffStreamManager.addDiffs args metadata m diffs).1 map' ∧
      ∀ path, path ∈ (DiffStreamManager.addDiffs args metadata m diffs).1.knownPaths ↔
        path ∈ m.knownPaths ∨ path ∈ diffs.map diffPath := by
  induction diffs generalizing m map with
  | nil => exact ⟨map, rfl, h, by simp [DiffStreamManager.addDiffs]⟩
  | cons diff rest ih =>
    have hsee : Tracks { m.see metadata (diffPath diff) with
        cumulative := (applyStreamOmitPolicy args diff m.cumulative).2 }
        (Function.update map (diffPath diff)
          (some (labelDiff args (applyStreamOmitPolicy args diff m.cumulative).1))) :=
      (h.see metadata (diffPath diff) _).same rfl
    obtain ⟨map', happly, htracks, hmem⟩ := ih hsee
    refine ⟨map', happly, htracks, fun path => ?_⟩
    have hfirst : path ∈ (m.see metadata (diffPath diff)).knownPaths ↔
        path ∈ m.knownPaths ∨ path = diffPath diff := mem_see
    rw [List.map_cons, List.mem_cons, ← or_assoc, ← hfirst]
    exact hmem path

/-- The manager's change and its patches leave the client with what the manager knows. -/
def Applies (map : ClientDiffs U) (result : DiffStreamManager C S × List (DiffOp U)) : Prop :=
  ∃ map', applyPatch map result.2 = some map' ∧ Tracks result.1 map'

/-- Removes can be applied exactly when their paths are known and distinct. -/
theorem removeOthers_spec (h : Tracks m map) (withDiffs changedPaths : List String) :
    Applies map (DiffStreamManager.removeOthers withDiffs m changedPaths) ↔
      (changedPaths.filter fun path => path ∉ withDiffs).Nodup ∧
        ∀ path ∈ changedPaths, path ∉ withDiffs → path ∈ m.knownPaths := by
  induction changedPaths generalizing m map with
  | nil =>
    simp only [List.filter_nil, List.nodup_nil, List.not_mem_nil, false_implies, implies_true,
      and_self, iff_true]
    exact ⟨map, rfl, h⟩
  | cons path rest ih =>
    by_cases hpath : path ∈ withDiffs
    · have hskip : DiffStreamManager.removeOthers (U := U) withDiffs m (path :: rest) =
          DiffStreamManager.removeOthers withDiffs m rest := by
        rw [DiffStreamManager.removeOthers, if_pos hpath]
      rw [hskip, ih h, List.filter_cons_of_neg (by simp [hpath]), List.forall_mem_cons]
      simp [hpath]
    · have hremove : DiffStreamManager.removeOthers (U := U) withDiffs m (path :: rest) =
          ((DiffStreamManager.removeOthers (U := U) withDiffs (m.forget path) rest).1,
            .removeRepoDiff path :: (DiffStreamManager.removeOthers withDiffs (m.forget path) rest).2) := by
        rw [DiffStreamManager.removeOthers, if_neg hpath]
      rw [hremove, List.filter_cons_of_pos (by simp [hpath]), List.nodup_cons, List.forall_mem_cons]
      by_cases hknown : path ∈ m.knownPaths
      · have hkey : (map path).isSome := (h.keys path).mpr hknown
        have hfirst (ops : List (DiffOp U)) : applyPatch map (.removeRepoDiff path :: ops) =
            applyPatch (Function.update map path none) ops := by
          simp [applyPatch, applyOp, hkey]
        have hforget : ∀ other, other ∈ (m.forget path).knownPaths ↔
            other ∈ m.knownPaths ∧ other ≠ path := by simp [DiffStreamManager.forget]
        have hrest := ih (h.forget path)
        rw [Applies, hfirst]
        refine hrest.trans ?_
        simp only [hforget]
        constructor
        · rintro ⟨hnodup, hall⟩
          refine ⟨⟨fun hmem => ?_, hnodup⟩, fun _ => hknown, fun other hother hw => (hall other hother hw).1⟩
          obtain ⟨hmem, _⟩ := List.mem_filter.mp hmem
          exact (hall path hmem hpath).2 rfl
        · rintro ⟨⟨hnew, hnodup⟩, _, hall⟩
          refine ⟨hnodup, fun other hother hw => ⟨hall other hother hw, ?_⟩⟩
          rintro rfl
          exact hnew (List.mem_filter.mpr ⟨hother, by simp [hw]⟩)
      · have hfail (ops : List (DiffOp U)) : applyPatch map (.removeRepoDiff path :: ops) = none := by
          have hkey : ¬ (map path).isSome := fun hsome => hknown ((h.keys path).mp hsome)
          simp [applyPatch, applyOp, hkey]
        rw [Applies, hfail]
        simp [hpath, hknown]

theorem applies_append {before later : List (DiffOp U)} {map' : ClientDiffs U}
    {last : DiffStreamManager C S} (h : applyPatch map before = some map') :
    Applies map (last, before ++ later) ↔ Applies map' (last, later) := by
  simp only [Applies, applyPatch_append, h, Option.bind_some]

theorem processFileChanges_spec (h : Tracks m map) (changedPaths : List String)
    (answer : DiffAnswer U S) :
    Applies map (m.processFileChanges args changedPaths answer) ↔
      ChangesClean m changedPaths answer := by
  unfold DiffStreamManager.processFileChanges ChangesClean
  cases answer.diffs with
  | none =>
    constructor
    · intro _ diffs hdiffs
      cases hdiffs
    · exact fun _ => ⟨map, rfl, h⟩
  | some diffs =>
    obtain ⟨added, hadded, htracks, hknown⟩ := addDiffs_spec args h answer.metadata diffs
    refine (applies_append hadded).trans ((removeOthers_spec htracks _ _).trans ?_)
    simp only [Option.mem_def, Option.some.injEq, forall_eq']
    refine and_congr_right fun _ => forall₂_congr fun path _ => forall_congr' fun hpath => ?_
    rw [hknown]
    exact or_iff_left hpath

/-- The patch that replaces everything can always be applied. -/
theorem reset_entries (metadata : String → Option S) (diffs : List (Diff U)) (h : Tracks m map) :
    Tracks (diffs.foldl (fun m diff => m.see metadata (diffPath diff)) m)
      (diffs.foldl (fun map diff =>
        Function.update map (diffPath diff) (some (labelDiff args diff))) map) := by
  induction diffs generalizing m map with
  | nil => exact h
  | cons diff rest ih => exact ih (h.see metadata (diffPath diff) (labelDiff args diff))

theorem resetStream_spec (h : Tracks m map) (answer : DiffAnswer U S) :
    Applies map (m.resetStream args answer) ↔ ResetClean m answer := by
  unfold DiffStreamManager.resetStream ResetClean
  cases answer.diffs with
  | none =>
    simp only [forall_const]
    constructor
    · rintro ⟨map', happly, htracks⟩
      obtain rfl := Option.some.inj happly
      refine List.eq_nil_iff_forall_not_mem.mpr fun path hpath => ?_
      exact absurd ((htracks.keys path).mp ((h.keys path).mpr hpath)) List.not_mem_nil
    · intro hnil
      exact ⟨map, rfl, h.same hnil.symm⟩
  | some diffs =>
    have htracks (sent : List (Diff U)) (cleared : DiffStreamManager C S)
        (hcleared : cleared.knownPaths = []) :
        Tracks (sent.foldl (fun m diff => m.see answer.metadata (diffPath diff)) cleared)
          (sent.foldl (fun map diff =>
            Function.update map (diffPath diff) (some (labelDiff args diff))) fun _ => none) :=
      reset_entries answer.metadata sent ⟨by simp [hcleared], by simp [hcleared]⟩
    constructor
    · intro _ hnone
      cases hnone
    · exact fun _ => ⟨_, rfl, htracks _ _ rfl⟩

theorem removeOthers_nil (paths : List String) :
    DiffStreamManager.removeOthers (U := U) [] m paths =
      (paths.foldl DiffStreamManager.forget m, paths.map .removeRepoDiff) := by
  induction paths generalizing m with
  | nil => rfl
  | cons path rest ih =>
    rw [DiffStreamManager.removeOthers, if_neg List.not_mem_nil, ih]
    rfl

theorem mem_forgets (paths : List String) (path : String) :
    path ∈ (paths.foldl DiffStreamManager.forget m).knownPaths ↔
      path ∈ m.knownPaths ∧ path ∉ paths := by
  induction paths generalizing m with
  | nil => simp
  | cons first rest ih =>
    rw [List.foldl_cons, ih, List.mem_cons, not_or, ← and_assoc]
    simp [DiffStreamManager.forget]

/-- Known paths can be removed. -/
theorem forgets_spec (h : Tracks m map) (p : String → Bool) :
    ∃ map', applyPatch map ((m.knownPaths.filter p).map .removeRepoDiff) = some map' ∧
      Tracks ((m.knownPaths.filter p).foldl DiffStreamManager.forget m) map' := by
  have happlies := (removeOthers_spec h [] (m.knownPaths.filter p)).mpr
    ⟨(h.nodup.filter _).filter _, fun path hpath _ => List.mem_of_mem_filter hpath⟩
  rw [removeOthers_nil] at happlies
  exact happlies

/-- Of the paths that a reconcile diffs again only the new ones could be unknown. -/
theorem rediff_clean {kept : DiffStreamManager C S} {changed fresh : List String}
    (answer : DiffAnswer U S) (hnodup : changed.Nodup) (hchanged : ∀ path ∈ changed, path ∈ m.knownPaths)
    (hkept : ∀ path, path ∈ kept.knownPaths ↔ path ∈ m.knownPaths ∧ path ∈ fresh) :
    ChangesClean kept (changed.filter (fun path => path ∈ fresh) ++
        fresh.filter fun path => path ∉ kept.knownPaths) answer ↔
      ∀ diffs ∈ answer.diffs, ∀ path ∈ fresh, path ∉ m.knownPaths → path ∈ diffs.map diffPath := by
  have hnew (path : String) (hpath : path ∈ fresh.filter fun path => path ∉ kept.knownPaths) :
      path ∈ fresh ∧ path ∉ m.knownPaths := by
    obtain ⟨hfresh, hnot⟩ := List.mem_filter.mp hpath
    have hnot : path ∉ kept.knownPaths := by simpa using hnot
    exact ⟨hfresh, fun hknown => hnot ((hkept path).mpr ⟨hknown, hfresh⟩)⟩
  constructor
  · intro hclean diffs hdiffs path hfresh hunknown
    by_contra hpath
    have hnot : path ∉ kept.knownPaths := fun hmem => hunknown ((hkept path).mp hmem).1
    have hmem : path ∈ changed.filter (fun path => path ∈ fresh) ++
        fresh.filter fun path => path ∉ kept.knownPaths :=
      List.mem_append_right _ (List.mem_filter.mpr ⟨hfresh, by simpa using hnot⟩)
    exact hnot ((hclean diffs hdiffs).2 path hmem hpath)
  · intro hdiffed diffs hdiffs
    have hempty : (fresh.filter fun path => path ∉ kept.knownPaths).filter
        (fun path => path ∉ diffs.map diffPath) = [] := by
      refine List.filter_eq_nil_iff.mpr fun path hpath => ?_
      obtain ⟨hfresh, hunknown⟩ := hnew path hpath
      simpa using hdiffed diffs hdiffs path hfresh hunknown
    constructor
    · rw [List.filter_append, hempty, List.append_nil]
      exact (hnodup.filter _).filter _
    · intro path hpath hwithout
      obtain hpath | hpath := List.mem_append.mp hpath
      · obtain ⟨hmem, hfresh⟩ := List.mem_filter.mp hpath
        exact (hkept path).mpr ⟨hchanged path hmem, by simpa using hfresh⟩
      · obtain ⟨hfresh, hunknown⟩ := hnew path hpath
        exact absurd (hdiffed diffs hdiffs path hfresh hunknown) hwithout

/-- The part of a reconcile after the fresh paths are known: vanished paths are removed, then the
changed and the new ones are diffed. -/
theorem rediscover_spec (args : DiffStreamArgs U) (h : Tracks m map) {changed : List String} (hnodup : changed.Nodup)
    (hchanged : ∀ path ∈ changed, path ∈ m.knownPaths) (fresh : List String)
    (answer : DiffAnswer U S) :
    let removed := m.knownPaths.filter fun path => path ∉ fresh
    let kept := removed.foldl DiffStreamManager.forget m
    let newFiles := fresh.filter fun path => path ∉ kept.knownPaths
    let pathsToDiff := changed.filter (fun path => path ∈ fresh) ++ newFiles
    Applies map (if pathsToDiff.isEmpty then (kept, removed.map .removeRepoDiff)
      else
        let (last, ops) := kept.processFileChanges args pathsToDiff answer
        (last, removed.map .removeRepoDiff ++ ops)) ↔
      ∀ diffs ∈ answer.diffs, ∀ path ∈ fresh, path ∉ m.knownPaths → path ∈ diffs.map diffPath := by
  intro removed kept newFiles pathsToDiff
  obtain ⟨map', hremoves, htracks⟩ := forgets_spec h fun path => path ∉ fresh
  have hkept (path : String) : path ∈ kept.knownPaths ↔ path ∈ m.knownPaths ∧ path ∈ fresh := by
    rw [mem_forgets]
    constructor
    · rintro ⟨hmem, hnot⟩
      exact ⟨hmem, by_contra fun hfresh => hnot (List.mem_filter.mpr ⟨hmem, by simpa using hfresh⟩)⟩
    · rintro ⟨hmem, hfresh⟩
      exact ⟨hmem, fun hmem' => by simpa [hfresh] using (List.mem_filter.mp hmem').2⟩
  have hclean := rediff_clean answer hnodup hchanged hkept
  by_cases hempty : pathsToDiff.isEmpty
  · rw [if_pos hempty, ← hclean]
    have hnil : pathsToDiff = [] := List.isEmpty_iff.mp hempty
    change _ ↔ ChangesClean kept pathsToDiff answer
    rw [hnil]
    constructor
    · intro _ diffs _
      exact ⟨List.nodup_nil, fun path hpath => absurd hpath List.not_mem_nil⟩
    · exact fun _ => ⟨map', hremoves, htracks⟩
  · rw [if_neg hempty, ← hclean]
    exact (applies_append hremoves).trans (processFileChanges_spec htracks _ _)

theorem applies_nothing (h : Tracks m map) : Applies map (m, []) := ⟨map, rfl, h⟩

/-- The client has the known paths of the session. -/
def Session.Tracks (s : Session U C S) : Prop := DiffStream.Tracks s.manager s.client

theorem start_tracks (args : DiffStreamArgs U) (baseCommit : C) (targetBranch : String)
    (currentHead : Option C) (answer : DiffAnswer U S) :
    ∃ s, Session.start args baseCommit targetBranch currentHead answer = some s ∧ s.Tracks := by
  have hnew : Tracks (U := U) (DiffStreamManager.new (S := S) baseCommit targetBranch) fun _ => none :=
    ⟨fun path => by simp [DiffStreamManager.new], List.nodup_nil⟩
  obtain ⟨map, happly, htracks⟩ := (resetStream_spec hnew answer).mpr fun _ => rfl
  refine ⟨_, Option.map_eq_some_iff.mpr ⟨map, happly, rfl⟩, ?_⟩
  split_ifs with hnone
  · exact htracks
  · exact htracks.same rfl

variable [DecidableEq S]

theorem reconcilePaths_spec (h : Tracks m map) (forceDiscovery : Bool)
    (answer : ReconcileAnswer U C S) :
    Applies map (m.reconcilePaths args forceDiscovery answer) ↔
      ReconcileClean m forceDiscovery answer := by
  unfold DiffStreamManager.reconcilePaths ReconcileClean
  have hnodup : (m.statChanged answer.metadata).Nodup := h.nodup.filter _
  have hchanged : ∀ path ∈ m.statChanged answer.metadata, path ∈ m.knownPaths :=
    fun path hpath => List.mem_of_mem_filter hpath
  cases hrun : forceDiscovery || m.needsPostResetDiscovery ||
      !(m.statChanged answer.metadata).isEmpty || decide ((m.reconcileCycle + 1) % 6 = 0) with
  | false =>
    have hempty : (m.statChanged answer.metadata).isEmpty = true := by
      cases hstat : (m.statChanged answer.metadata).isEmpty with
      | true => rfl
      | false => simp [hstat] at hrun
    rw [hempty] at hrun
    simp only [hempty, hrun, Bool.not_false, Bool.and_self, if_true, Bool.false_eq_true,
      false_implies, iff_true]
    exact ⟨map, rfl, h.same rfl⟩
  | true =>
    simp only [hrun, Bool.not_true, Bool.and_false, Bool.false_eq_true, if_false, forall_const]
    cases hfresh : answer.freshPaths with
    | none =>
      simp only [Option.mem_def, reduceCtorEq, false_implies, implies_true, iff_true]
      exact ⟨map, rfl, h.same rfl⟩
    | some fresh =>
      simp only [Option.mem_def, Option.some.injEq, forall_eq']
      have hcycled : Tracks { m with
          reconcileCycle := m.reconcileCycle + 1, needsPostResetDiscovery := false } map := h.same rfl
      exact rediscover_spec args hcycled hnodup hchanged fresh answer.diffing

variable [DecidableEq C]

theorem handleReconcile_spec (h : Tracks m map) (answer : ReconcileAnswer U C S) :
    Applies map (m.handleReconcile args answer) ↔ TickClean m answer := by
  unfold DiffStreamManager.handleReconcile TickClean
  by_cases hpending : m.pendingReset = true
  · simp only [hpending, if_true, iff_true]
    exact applies_nothing h
  · simp only [if_neg hpending]
    by_cases hhead : answer.currentHead = m.lastHeadCommit
    · simp only [if_pos hhead]
      exact reconcilePaths_spec h false answer
    · simp only [if_neg hhead]
      cases hbase : answer.newBase with
      | none =>
        have hlogged : Tracks { m with baseLookupErrorLogged := true } map := h.same rfl
        exact reconcilePaths_spec hlogged true answer
      | some base =>
        by_cases hmoved : base = m.currentBaseCommit
        · have hseen : Tracks { m with
              lastHeadCommit := answer.currentHead, baseLookupErrorLogged := false } map := h.same rfl
          cases hchild : m.isChildOfCurrentHead answer with
          | true =>
            simp only [hmoved, ne_eq, not_true_eq_false, false_or, Bool.true_eq_false, if_false, if_true]
            exact reconcilePaths_spec hseen true answer
          | false =>
            simp only [hmoved, ne_eq, not_true_eq_false, or_true, Bool.false_eq_true, if_false, if_true]
            exact resetStream_spec hseen answer.diffing
        · have hseen : Tracks { m with
              lastHeadCommit := answer.currentHead
              baseLookupErrorLogged := false
              currentBaseCommit := base } map := h.same rfl
          simp only [ne_eq, hmoved, not_false_eq_true, true_or, if_true]
          exact resetStream_spec hseen answer.diffing

theorem handleEvent_spec (h : Tracks m map) (event : DiffEvent U C S) :
    Applies map (handleEvent args m event) ↔ Clean m event := by
  cases event with
  | filesystem changedPaths answer =>
    simp only [handleEvent, Clean]
    cases changedPaths with
    | nil =>
      constructor
      · intro _ diffs _
        exact ⟨List.nodup_nil, fun path hpath => absurd hpath List.not_mem_nil⟩
      · exact fun _ => applies_nothing h
    | cons first rest =>
      simp only [List.isEmpty_cons, Bool.false_eq_true, if_false]
      exact processFileChanges_spec h _ answer
  | gitStateChange isChild =>
    simp only [handleEvent, Clean, iff_true]
    cases isChild with
    | true => exact applies_nothing h
    | false => exact applies_nothing (h.same rfl)
  | checkTarget targetBranch newBase answer =>
    simp only [handleEvent, Clean]
    by_cases htarget : targetBranch = m.currentTargetBranch
    · simp only [ne_eq, htarget, not_true_eq_false, false_implies, iff_true]
      exact applies_nothing h
    · simp only [ne_eq, htarget, not_false_eq_true, forall_const]
      cases newBase with
      | none =>
        simp only [Option.isSome_none, Bool.false_eq_true, false_implies, iff_true]
        exact applies_nothing h
      | some base =>
        have hmoved : Tracks { m with
            currentTargetBranch := targetBranch, currentBaseCommit := base } map := h.same rfl
        simp only [Option.isSome_some, forall_const]
        exact resetStream_spec hmoved answer
  | reconcile answer => exact handleReconcile_spec h answer
  | debouncedReset newBase currentHead answer =>
    simp only [handleEvent, Clean]
    by_cases hpending : m.pendingReset = true
    · have hmoved : Tracks { m with
          currentBaseCommit := newBase.getD m.currentBaseCommit
          lastHeadCommit := currentHead } map := h.same rfl
      simp only [hpending, if_true, forall_const]
      exact resetStream_spec hmoved answer
    · simp only [hpending, Bool.false_eq_true, if_false, false_implies, iff_true]
      exact applies_nothing h

theorem step_spec {s : Session U C S} (h : s.Tracks) (hended : s.ended = false)
    (event : DiffEvent U C S) :
    (∃ s', s.step args event = some s' ∧ s'.Tracks) ↔ Clean s.manager event := by
  have hhandled : Applies s.client (handleEvent args s.manager event) ↔ Clean s.manager event :=
    handleEvent_spec h event
  rw [← hhandled]
  simp only [Session.step, hended, Bool.false_eq_true, if_false]
  constructor
  · rintro ⟨s', hstep, htracks⟩
    obtain ⟨map, happly, rfl⟩ := Option.map_eq_some_iff.mp hstep
    exact ⟨map, happly, htracks⟩
  · rintro ⟨map, happly, htracks⟩
    exact ⟨_, Option.map_eq_some_iff.mpr ⟨map, happly, rfl⟩, htracks⟩

/-- The steps of an ended stream do nothing. -/
def StepClean (s : Session U C S) (event : DiffEvent U C S) : Prop :=
  s.ended = true ∨ Clean s.manager event

theorem step_tracks {s s' : Session U C S} {event : DiffEvent U C S} (h : s.Tracks)
    (hclean : StepClean s event) (hstep : s.step args event = some s') : s'.Tracks := by
  cases hended : s.ended with
  | true =>
    rw [Session.step, if_pos hended] at hstep
    obtain rfl := Option.some.inj hstep
    exact h
  | false =>
    have hevent : Clean s.manager event := hclean.resolve_left (by simp [hended])
    obtain ⟨after, hafter, htracks⟩ := (step_spec h hended event).mpr hevent
    obtain rfl := Option.some.inj (hafter.symm.trans hstep)
    exact htracks

/-- As long as all steps are clean the client follows the manager, and from there a step of a stream
that has not ended can be applied and keeps it so exactly when it is clean. -/
theorem patches_track (args : DiffStreamArgs U) (baseCommit : C) (targetBranch : String)
    (currentHead : Option C) (first : DiffAnswer U S) :
    ∃ s₀, Session.start args baseCommit targetBranch currentHead first = some s₀ ∧
      ∀ events s, Run (Session.step args) StepClean s₀ events s →
        s.Tracks ∧ ∀ event, s.ended = false →
          ((∃ s', s.step args event = some s' ∧ s'.Tracks) ↔ Clean s.manager event) := by
  obtain ⟨s₀, hstart, hs₀⟩ := start_tracks args baseCommit targetBranch currentHead first
  refine ⟨s₀, hstart, fun events s hrun => ?_⟩
  have hs : s.Tracks := hrun.invariant (fun _ _ _ h hok hstep => step_tracks h hok hstep) hs₀
  exact ⟨hs, fun event hended => step_spec hs hended event⟩

/-- A file whose touch leaves no diff, and that had none before, is removed all the same. -/
theorem touched_file_is_removed :
    ¬ ∀ (args : DiffStreamArgs ℕ) (first : DiffAnswer ℕ ℕ) (s₀ : Session ℕ ℕ ℕ),
      Session.start args 0 "main" (some 0) first = some s₀ →
        ∀ events s, Run (Session.step args) (fun _ _ => True) s₀ events s →
          ∀ event, ∃ s', s.step args event = some s' ∧ s'.Tracks := by
  intro hall
  have hstart := hall ⟨false, none, 0, fun _ _ => (0, 0)⟩ ⟨fun _ => none, some []⟩ _ rfl [] _ (.nil _)
    (.filesystem ["README.md"] ⟨fun _ => none, some []⟩)
  obtain ⟨s', hstep, _⟩ := hstart
  cases hstep

end Lemmas

end VibeKanban.DiffStream
