import Mathlib.Logic.Function.Basic
import VibeKanban.Events.MsgStore

/-! The event patches of database rows, how the two row streams filter and rewrite them, and what a
client makes of them. -/
namespace VibeKanban.Events

/-- `rest` is what the streams do not look at. -/
structure ExecutionProcess (U R : Type) where
  id : U
  sessionId : U
  dropped : Bool
  rest : R
  deriving DecidableEq

structure WorkspaceWithStatus (U R : Type) where
  id : U
  archived : Bool
  rest : R
  deriving DecidableEq

/-- Records of the legacy event format. -/
inductive LegacyRecord (U R : Type) where
  | executionProcess (process : ExecutionProcess U R)
  | deletedExecutionProcess (sessionId : Option U)
  | other
  deriving DecidableEq

inductive PatchValue (U R : Type) where
  | process (process : ExecutionProcess U R)
  | workspace (workspace : WorkspaceWithStatus U R)
  | legacy (record : LegacyRecord U R)
  | other
  deriving DecidableEq

inductive PatchPath (U : Type) where
  | executionProcess (id : U)
  | workspace (id : U)
  | other
  deriving DecidableEq

inductive PatchOperation (U R : Type) where
  | add (path : PatchPath U) (value : PatchValue U R)
  | replace (path : PatchPath U) (value : PatchValue U R)
  | remove (path : PatchPath U)
  | other (path : PatchPath U)
  deriving DecidableEq

variable {U R : Type}

namespace PatchOperation

def path : PatchOperation U R → PatchPath U
  | add path _ => path
  | replace path _ => path
  | remove path => path
  | other path => path

def value? : PatchOperation U R → Option (PatchValue U R)
  | add _ value => some value
  | replace _ value => some value
  | _ => none

/-- An operation outside a collection, which is not a process in the legacy format. -/
def unrelated (key : PatchPath U → Option U) (op : PatchOperation U R) : Bool :=
  (key op.path).isNone && match op.value? with
    | some (.legacy (.executionProcess _)) => false
    | _ => true

end PatchOperation

abbrev Patch (U R : Type) := List (PatchOperation U R)

def executionProcessRemove (id : U) : Patch U R := [.remove (.executionProcess id)]

section Filters
variable [DecidableEq U]

/-- What the session's stream makes of a process it was told about. -/
def passProcess (sessionId : U) (showSoftDeleted : Bool) (msg : LogMsg (Patch U R))
    (process : ExecutionProcess U R) : Option (LogMsg (Patch U R)) :=
  if process.sessionId = sessionId then
    if !showSoftDeleted && process.dropped then some (.jsonPatch (executionProcessRemove process.id))
    else some msg
  else none

/-- The fallback for records of the legacy format. -/
def filterLegacy (sessionId : U) (showSoftDeleted : Bool) (msg : LogMsg (Patch U R))
    (op : PatchOperation U R) : Option (LogMsg (Patch U R)) :=
  match op.value? with
  | some (.legacy (.executionProcess process)) =>
    passProcess sessionId showSoftDeleted msg process
  | some (.legacy (.deletedExecutionProcess (some deleted))) =>
    if deleted = sessionId then some msg else none
  | _ => none

/-- The filter of `stream_execution_processes_for_session_raw`. -/
def filterProcess (sessionId : U) (showSoftDeleted : Bool) (msg : LogMsg (Patch U R)) :
    Option (LogMsg (Patch U R)) :=
  match msg with
  | .jsonPatch [] => none
  | .jsonPatch (op :: _) =>
    match op.path with
    | .executionProcess _ =>
      match op with
      | .add _ (.process process) => passProcess sessionId showSoftDeleted msg process
      | .replace _ (.process process) => passProcess sessionId showSoftDeleted msg process
      | .remove _ => some msg
      | _ => none
    | _ => filterLegacy sessionId showSoftDeleted msg op
  | other => some other

def PatchValue.archived? : PatchValue U R → Option Bool
  | PatchValue.workspace row => some row.archived
  | _ => none

/-- What the workspace stream makes of a value, given the patch with a replace turned into an add. -/
def passWorkspace (filter : Bool) (msg added : LogMsg (Patch U R)) (op : PatchOperation U R)
    (value : PatchValue U R) : Option (LogMsg (Patch U R)) :=
  match value.archived? with
  | some archived => if archived = filter then some added else some (.jsonPatch [.remove op.path])
  | none => some msg

/-- The filter of `stream_workspaces_raw`. -/
def filterWorkspace (archived : Option Bool) (msg : LogMsg (Patch U R)) :
    Option (LogMsg (Patch U R)) :=
  match msg with
  | .jsonPatch [] => none
  | .jsonPatch (op :: _) =>
    match op.path with
    | .workspace _ =>
      match archived with
      | none => some msg
      | some filter =>
        match op with
        | .add _ value => passWorkspace filter msg msg op value
        | .replace path value => passWorkspace filter msg (.jsonPatch [.add path value]) op value
        | .remove _ => some msg
        | .other _ => some msg
    | _ => none
  | other => some other

end Filters

/-- The map a client holds for one of the collections. -/
abbrev ClientMap (U R : Type) := U → Option (PatchValue U R)

section Client
variable [DecidableEq U] (key : PatchPath U → Option U)

/-- The client's rule: a replace of a missing key adds it, a remove of an absent key does nothing. -/
def applyUpsert (map : ClientMap U R) (op : PatchOperation U R) : ClientMap U R :=
  match op, key op.path with
  | .add _ value, some id => Function.update map id (some value)
  | .replace _ value, some id => Function.update map id (some value)
  | .remove _, some id => Function.update map id none
  | _, _ => map

/-- JSON patch proper: a replace or a remove needs its key. -/
def applyStrict (map : ClientMap U R) (op : PatchOperation U R) : Option (ClientMap U R) :=
  match op, key op.path with
  | .replace _ _, some id => if (map id).isSome then some (applyUpsert key map op) else none
  | .remove _, some id => if (map id).isSome then some (applyUpsert key map op) else none
  | _, _ => some (applyUpsert key map op)

def applyMsg (map : ClientMap U R) : LogMsg (Patch U R) → ClientMap U R
  | .jsonPatch patch => patch.foldl (applyUpsert key) map
  | _ => map

/-- The effect of a broadcast message behind a filter. -/
def applyFiltered (filter : LogMsg (Patch U R) → Option (LogMsg (Patch U R)))
    (map : ClientMap U R) (msg : LogMsg (Patch U R)) : ClientMap U R :=
  match filter msg with
  | some passed => applyMsg key map passed
  | none => map

end Client

/-- A stream of the rows of one table: where they stand in the client's data, which of them the
stream is about and how it filters. A row of a foreign key is never in the stream. -/
structure LiveView (U R ρ : Type) [DecidableEq U] where
  key : PatchPath U → Option U
  path : U → PatchPath U
  value : ρ → PatchValue U R
  keep : ρ → Bool
  filter : LogMsg (Patch U R) → Option (LogMsg (Patch U R))
  gone : Option (PatchOperation U R)
  fits : U → ρ → Prop
  foreign : U → Prop
  upsert_effect : ∀ {id row}, fits id row → ∀ {op map}, (foreign id → map id = none) →
    op = .add (path id) (value row) ∨ op = .replace (path id) (value row) →
    applyFiltered key filter map (.jsonPatch [op]) =
      Function.update map id (if keep row then some (value row) else none)
  remove_effect : ∀ id map, applyFiltered key filter map (.jsonPatch [.remove (path id)]) =
    Function.update map id none
  other_effect : ∀ op, op.unrelated key → ∀ map, applyFiltered key filter map (.jsonPatch [op]) = map
  gone_other : ∀ op ∈ gone, op.unrelated key
  keep_foreign : ∀ {id row}, fits id row → foreign id → keep row = false

theorem key_eq_none_of_unrelated {key : PatchPath U → Option U} {op : PatchOperation U R}
    (h : op.unrelated key) : key op.path = none := by
  rw [PatchOperation.unrelated, Bool.and_eq_true] at h
  exact Option.isNone_iff_eq_none.mp h.1

section Views
variable [DecidableEq U]

def executionProcessKey : PatchPath U → Option U
  | .executionProcess id => some id
  | _ => none

def workspaceKey : PatchPath U → Option U
  | .workspace id => some id
  | _ => none

theorem update_none_of_eq_none {V : Type} {map : U → Option V} {id : U} (h : map id = none) :
    Function.update map id none = map := by
  rw [← h, Function.update_eq_self]

theorem applyUpsert_of_key_none {key : PatchPath U → Option U} {map : ClientMap U R}
    {op : PatchOperation U R} (h : key op.path = none) : applyUpsert key map op = map := by
  cases op <;> simp_all [applyUpsert, PatchOperation.path]

theorem filterLegacy_unrelated {key : PatchPath U → Option U} {op : PatchOperation U R}
    (h : op.unrelated key) (sessionId : U) (showSoftDeleted : Bool) (msg : LogMsg (Patch U R)) :
    filterLegacy sessionId showSoftDeleted msg op = none ∨
      filterLegacy sessionId showSoftDeleted msg op = some msg := by
  unfold filterLegacy
  split
  · rename_i hvalue
    simp [PatchOperation.unrelated, hvalue] at h
  · split_ifs
    · exact .inr rfl
    · exact .inl rfl
  · exact .inl rfl

/-- The processes of a session; `owner` is the session of every process, which no statement
changes. -/
def processView (owner : U → U) (sessionId : U) (showSoftDeleted : Bool) :
    LiveView U R (ExecutionProcess U R) where
  key := executionProcessKey
  path := .executionProcess
  value := .process
  keep process := process.sessionId = sessionId && (showSoftDeleted || !process.dropped)
  filter := filterProcess sessionId showSoftDeleted
  gone := some (.add .other (.legacy (.deletedExecutionProcess none)))
  fits id process := process.id = id ∧ process.sessionId = owner id
  foreign id := owner id ≠ sessionId
  upsert_effect {id row} hfits {op map} hforeign hop := by
    obtain ⟨hid, howner⟩ := hfits
    have hpass : filterProcess sessionId showSoftDeleted (.jsonPatch [op]) =
        passProcess sessionId showSoftDeleted (.jsonPatch [op]) row := by
      obtain rfl | rfl := hop
      · rfl
      · rfl
    have happly : applyUpsert executionProcessKey map op =
        Function.update map id (some (.process row)) := by
      obtain rfl | rfl := hop
      · rfl
      · rfl
    rw [applyFiltered, hpass, passProcess]
    by_cases hsession : row.sessionId = sessionId
    · rw [if_pos hsession]
      cases hdropped : !showSoftDeleted && row.dropped with
      | true =>
        have hkeep : (showSoftDeleted || !row.dropped) = false := by
          cases showSoftDeleted <;> cases hd : row.dropped <;> simp_all
        simp only [hsession, hkeep, if_true, decide_true, Bool.and_false, Bool.false_eq_true,
          if_false]
        rw [hid]
        rfl
      | false =>
        have hkeep : (showSoftDeleted || !row.dropped) = true := by
          cases showSoftDeleted <;> cases hd : row.dropped <;> simp_all
        simp only [hsession, hkeep, Bool.false_eq_true, if_false, decide_true, Bool.and_true, if_true]
        exact happly
    · simp only [hsession, decide_false, Bool.false_and, Bool.false_eq_true, if_false]
      exact (update_none_of_eq_none (hforeign (howner ▸ hsession))).symm
  remove_effect id map := rfl
  other_effect op hop map := by
    have hkey := key_eq_none_of_unrelated hop
    have hfilter : filterProcess sessionId showSoftDeleted (.jsonPatch [op]) =
        filterLegacy sessionId showSoftDeleted (.jsonPatch [op]) op := by
      cases hpath : op.path with
      | executionProcess id =>
        rw [hpath] at hkey
        cases hkey
      | workspace id => simp only [filterProcess, hpath]
      | other => simp only [filterProcess, hpath]
    rw [applyFiltered, hfilter]
    obtain hnone | hsome := filterLegacy_unrelated hop sessionId showSoftDeleted (.jsonPatch [op])
    · rw [hnone]
    · rw [hsome]
      exact applyUpsert_of_key_none hkey
  gone_other op hop := by
    obtain rfl := Option.some.inj hop
    rfl
  keep_foreign {id row} hfits hforeign := by
    have hsession : row.sessionId ≠ sessionId := hfits.2 ▸ hforeign
    simp [hsession]

/-- The workspaces with an archived flag, or all of them. -/
def workspaceView (archived : Option Bool) : LiveView U R (WorkspaceWithStatus U R) where
  key := workspaceKey
  path := .workspace
  value := .workspace
  keep workspace := archived.all fun filter => workspace.archived = filter
  filter := filterWorkspace archived
  gone := none
  fits id workspace := workspace.id = id
  foreign _ := False
  upsert_effect {id row} hfits {op map} _ hop := by
    cases archived with
    | none =>
      obtain rfl | rfl := hop
      · rfl
      · rfl
    | some filter =>
      by_cases hmatch : row.archived = filter
      · obtain rfl | rfl := hop
        · simp [applyFiltered, filterWorkspace, PatchOperation.path, passWorkspace,
            PatchValue.archived?, hmatch, applyMsg, applyUpsert, workspaceKey]
        · simp [applyFiltered, filterWorkspace, PatchOperation.path, passWorkspace,
            PatchValue.archived?, hmatch, applyMsg, applyUpsert, workspaceKey]
      · obtain rfl | rfl := hop
        · simp [applyFiltered, filterWorkspace, PatchOperation.path, passWorkspace,
            PatchValue.archived?, hmatch, applyMsg, applyUpsert, workspaceKey]
        · simp [applyFiltered, filterWorkspace, PatchOperation.path, passWorkspace,
            PatchValue.archived?, hmatch, applyMsg, applyUpsert, workspaceKey]
  remove_effect id map := by
    cases archived with
    | none => rfl
    | some filter => rfl
  other_effect op hop map := by
    have hkey := key_eq_none_of_unrelated hop
    have hnone : filterWorkspace archived (.jsonPatch [op]) = none := by
      cases hpath : op.path with
      | workspace id =>
        rw [hpath] at hkey
        cases hkey
      | executionProcess id => simp only [filterWorkspace, hpath]
      | other => simp only [filterWorkspace, hpath]
    rw [applyFiltered, hnone]
  gone_other op hop := by cases hop
  keep_foreign _ hforeign := hforeign.elim

end Views

end VibeKanban.Events
