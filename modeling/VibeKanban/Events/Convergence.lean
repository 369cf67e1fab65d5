import VibeKanban.Events.Streams
import VibeKanban.Lib.Machine

/-! Row changes, the hooks that broadcast them, and a client that opens one of the row streams. The
steps of all of them interleave. -/
namespace VibeKanban.Events
open Lib

/-- What the update hook spawns: it fetches the row and then broadcasts it. -/
structure HookTask (U ρ : Type) where
  id : U
  insert : Bool
  fetched : Option (Option ρ)

inductive StreamReader where
  | closed
  | queried
  | streaming (next : ℕ)

/-- The committed rows, the changes of the open transaction, the tasks of the update hook, all that
was broadcast, and the client. -/
structure LiveState (U R ρ : Type) where
  rows : U → Option ρ
  staged : List (U × Option ρ)
  tasks : List (HookTask U ρ)
  sent : List (PatchOperation U R)
  reader : StreamReader
  client : ClientMap U R

/-- A row is written or erased in the open transaction, or changed by a statement on another table,
with a task (`refresh`) or without one (`recompute`). -/
inductive LiveEvent (U R ρ : Type) where
  | write (id : U) (row : ρ)
  | erase (id : U)
  | commit
  | refresh (id : U)
  | recompute (id : U) (row : ρ)
  | fetch (task : ℕ)
  | push (task : ℕ)
  | other (op : PatchOperation U R)
  | snapshot
  | subscribe
  | read

variable {U R ρ : Type} [DecidableEq U]

namespace LiveState

def new (rows : U → Option ρ) : LiveState U R ρ := ⟨rows, [], [], [], .closed, fun _ => none⟩

/-- The rows as the open transaction has them. -/
def live (s : LiveState U R ρ) : U → Option ρ :=
  s.staged.foldl (fun rows change => Function.update rows change.1 change.2) s.rows

/-- All changes are committed, fetched, broadcast and read. -/
def Settled (s : LiveState U R ρ) : Prop :=
  s.staged = [] ∧ s.tasks = [] ∧ s.reader = .streaming s.sent.length

end LiveState

namespace LiveView
variable (v : LiveView U R ρ)

/-- What the stream is to show of a row. -/
def shows (row : Option ρ) : Option (PatchValue U R) := (row.filter v.keep).map v.value

def apply (map : ClientMap U R) (op : PatchOperation U R) : ClientMap U R :=
  applyFiltered v.key v.filter map (.jsonPatch [op])

/-- What a task broadcasts. -/
def announcement (task : HookTask U ρ) : Option ρ → Option (PatchOperation U R)
  | some row =>
    if task.insert then some (.add (v.path task.id) (v.value row))
    else some (.replace (v.path task.id) (v.value row))
  | none => v.gone

/-- One atomic step, when it can be taken. A deletion is broadcast before it is committed, and a
client that has lagged behind skips to the oldest message the channel holds. -/
def step (capacity : ℕ) (s : LiveState U R ρ) : LiveEvent U R ρ → Option (LiveState U R ρ)
  | .write id row => some { s with
      staged := s.staged ++ [(id, some row)]
      tasks := s.tasks ++ [⟨id, (s.live id).isNone, none⟩] }
  | .erase id =>
    if (s.live id).isSome then some { s with
      staged := s.staged ++ [(id, none)]
      sent := s.sent ++ [.remove (v.path id)] }
    else none
  | .commit => some { s with rows := s.live, staged := [] }
  | .refresh id => some { s with tasks := s.tasks ++ [⟨id, false, none⟩] }
  | .recompute id row =>
    if (s.rows id).isSome then some { s with rows := Function.update s.rows id (some row) } else none
  | .fetch i => do
    let task ← s.tasks[i]?
    return { s with tasks := s.tasks.set i { task with fetched := some (s.rows task.id) } }
  | .push i => do
    let task ← s.tasks[i]?
    let fetched ← task.fetched
    return { s with
      tasks := s.tasks.eraseIdx i
      sent := s.sent ++ (v.announcement task fetched).toList }
  | .other op => if op.unrelated v.key then some { s with sent := s.sent ++ [op] } else none
  | .snapshot =>
    match s.reader with
    | .closed => some { s with reader := .queried, client := fun id => v.shows (s.rows id) }
    | _ => none
  | .subscribe =>
    match s.reader with
    | .queried => some { s with reader := .streaming s.sent.length }
    | _ => none
  | .read =>
    match s.reader with
    | .streaming next =>
      if next + capacity < s.sent.length then
        some { s with reader := .streaming (s.sent.length - capacity) }
      else do
        let op ← s.sent[next]?
        return { s with reader := .streaming (next + 1), client := v.apply s.client op }
    | _ => none

/-- A task broadcasts the row as it stands, no row is broadcast between the query and the
subscription, no deletion is open at the query, and the client does not lag. -/
def Orderly (capacity : ℕ) (s : LiveState U R ρ) : LiveEvent U R ρ → Prop
  | .write id row => v.fits id row
  | .erase _ => s.reader ≠ .queried
  | .recompute _ _ => False
  | .push i => s.reader ≠ .queried ∧
      ∀ task ∈ s.tasks[i]?, ∀ fetched ∈ task.fetched, fetched = s.live task.id
  | .snapshot => ∀ id, s.live id = none → s.rows id = none
  | .read => ∀ next, s.reader = .streaming next → s.sent.length ≤ next + capacity
  | _ => True

/-- Every entry is a row of the stream under its key. -/
def Held (map : ClientMap U R) : Prop :=
  ∀ id value, map id = some value → ∃ row, v.fits id row ∧ v.keep row ∧ value = v.value row

/-- What the hooks broadcast. -/
inductive Broadcast : PatchOperation U R → Prop where
  | add {id : U} {row : ρ} (h : v.fits id row) : Broadcast (.add (v.path id) (v.value row))
  | replace {id : U} {row : ρ} (h : v.fits id row) : Broadcast (.replace (v.path id) (v.value row))
  | remove (id : U) : Broadcast (.remove (v.path id))
  | other {op : PatchOperation U R} (h : op.unrelated v.key) : Broadcast op

/-- The client's map once it has read what is still unread. -/
def seen (s : LiveState U R ρ) : ClientMap U R :=
  match s.reader with
  | .streaming next => (s.sent.drop next).foldl v.apply s.client
  | _ => s.client

/-- A row that differs from the committed one has a task that has not fetched it, and a row that the
client will not have as it stands has a task. -/
structure Tracks (s : LiveState U R ρ) : Prop where
  fits : ∀ id row, s.live id = some row → v.fits id row
  rows : ∀ id row, s.rows id = some row → v.fits id row
  changed : ∀ id, s.rows id = s.live id ∨ s.live id = none ∨
    ∃ task ∈ s.tasks, task.id = id ∧ task.fetched ≠ some (s.live id)
  sent : ∀ op ∈ s.sent, v.Broadcast op
  held : v.Held s.client
  bound : ∀ next, s.reader = .streaming next → next ≤ s.sent.length
  gone : s.reader ≠ .closed → ∀ id, s.live id = none → v.seen s id = none
  shown : s.reader ≠ .closed → ∀ id, v.seen s id = v.shows (s.live id) ∨
    ∃ task ∈ s.tasks, task.id = id

variable {v}

theorem shows_some {row : ρ} :
    v.shows (some row) = if v.keep row then some (v.value row) else none := by
  cases h : v.keep row <;> simp [shows, Option.filter, h]

theorem Held.foreign {map : ClientMap U R} (h : v.Held map) {id : U} (hid : v.foreign id) :
    map id = none := by
  cases hmap : map id with
  | none => rfl
  | some value =>
    obtain ⟨row, hfits, hkeep, _⟩ := h id value hmap
    rw [v.keep_foreign hfits hid] at hkeep
    cases hkeep

theorem Held.apply_upsert {map : ClientMap U R} (h : v.Held map) {id : U} {row : ρ}
    (hfits : v.fits id row) {op : PatchOperation U R}
    (hop : op = .add (v.path id) (v.value row) ∨ op = .replace (v.path id) (v.value row)) :
    v.apply map op = Function.update map id (v.shows (some row)) := by
  rw [shows_some]
  exact v.upsert_effect hfits h.foreign hop

theorem of_shows_eq_some {row : Option ρ} {value : PatchValue U R} (h : v.shows row = some value) :
    ∃ r, row = some r ∧ v.keep r ∧ value = v.value r := by
  obtain ⟨r, hr, rfl⟩ := Option.map_eq_some_iff.mp h
  obtain ⟨hrow, hkeep⟩ := Option.filter_eq_some_iff.mp hr
  exact ⟨r, hrow, hkeep, rfl⟩

theorem held_shows {rows : U → Option ρ} (hrows : ∀ id row, rows id = some row → v.fits id row) :
    v.Held fun id => v.shows (rows id) := by
  intro id value hvalue
  obtain ⟨row, hrow, hkeep, rfl⟩ := of_shows_eq_some hvalue
  exact ⟨row, hrows id row hrow, hkeep, rfl⟩

theorem Held.update {map : ClientMap U R} (h : v.Held map) {id : U} {row : Option ρ}
    (hfits : ∀ r, row = some r → v.fits id r) :
    v.Held (Function.update map id (v.shows row)) := by
  intro id' value hvalue
  by_cases hid : id' = id
  · subst hid
    rw [Function.update_self] at hvalue
    obtain ⟨r, hr, hkeep, rfl⟩ := of_shows_eq_some hvalue
    exact ⟨r, hfits r hr, hkeep, rfl⟩
  · rw [Function.update_of_ne hid] at hvalue
    exact h id' value hvalue

theorem Broadcast.held {op : PatchOperation U R} (hop : v.Broadcast op) {map : ClientMap U R}
    (h : v.Held map) : v.Held (v.apply map op) := by
  cases hop with
  | add hfits =>
    rw [h.apply_upsert hfits (.inl rfl)]
    exact h.update fun r hr => Option.some.inj hr ▸ hfits
  | replace hfits =>
    rw [h.apply_upsert hfits (.inr rfl)]
    exact h.update fun r hr => Option.some.inj hr ▸ hfits
  | remove id =>
    have hupdate : v.Held (Function.update map id (v.shows none)) :=
      h.update fun r hr => by cases hr
    rw [apply, v.remove_effect]
    exact hupdate
  | other hother =>
    rw [apply, v.other_effect _ hother]
    exact h

theorem held_foldl {ops : List (PatchOperation U R)} (hops : ∀ op ∈ ops, v.Broadcast op)
    {map : ClientMap U R} (h : v.Held map) : v.Held (ops.foldl v.apply map) := by
  induction ops generalizing map with
  | nil => exact h
  | cons op rest ih =>
    exact ih (fun op' hop' => hops op' (List.mem_cons_of_mem _ hop'))
      ((hops op List.mem_cons_self).held h)

variable {s s' : LiveState U R ρ}

theorem Tracks.heldSeen (h : v.Tracks s) : v.Held (v.seen s) := by
  unfold seen
  split
  · exact held_foldl (fun op hop => h.sent op (List.mem_of_mem_drop hop)) h.held
  · exact h.held

/-- A broadcast reaches the client after all that it has not read yet. -/
theorem Tracks.seen_sent (h : v.Tracks s) (hopen : s.reader ≠ .closed)
    (hqueried : s.reader ≠ .queried) {ops : List (PatchOperation U R)}
    (hreader : s'.reader = s.reader) (hclient : s'.client = s.client)
    (hsent : s'.sent = s.sent ++ ops) : v.seen s' = ops.foldl v.apply (v.seen s) := by
  cases hr : s.reader with
  | closed => exact absurd hr hopen
  | queried => exact absurd hr hqueried
  | streaming next =>
    rw [hr] at hreader
    simp only [seen, hreader, hr, hclient, hsent,
      List.drop_append_of_le_length (h.bound next hr), List.foldl_append]

end LiveView

theorem live_staged (s : LiveState U R ρ) (id : U) (row : Option ρ)
    (tasks : List (HookTask U ρ)) (sent : List (PatchOperation U R)) :
    ({ s with staged := s.staged ++ [(id, row)], tasks := tasks, sent := sent } :
      LiveState U R ρ).live = Function.update s.live id row := by
  simp [LiveState.live, List.foldl_append]

namespace LiveView
variable {v : LiveView U R ρ} {s s' : LiveState U R ρ}

theorem Tracks.write (h : v.Tracks s) {id : U} {row : ρ} (hfits : v.fits id row) (inserts : Bool) :
    v.Tracks { s with
      staged := s.staged ++ [(id, some row)]
      tasks := s.tasks ++ [⟨id, inserts, none⟩] } where
  fits id' row' hrow := by
    rw [live_staged] at hrow
    by_cases hid : id' = id
    · subst hid
      rw [Function.update_self] at hrow
      exact Option.some.inj hrow ▸ hfits
    · rw [Function.update_of_ne hid] at hrow
      exact h.fits id' row' hrow
  rows := h.rows
  changed id' := by
    rw [live_staged]
    by_cases hid : id' = id
    · subst hid
      exact .inr (.inr ⟨_, List.mem_append_right _ List.mem_cons_self, rfl, by simp⟩)
    · rw [Function.update_of_ne hid]
      obtain hsame | hnone | ⟨task, htask, htaskId, hfetched⟩ := h.changed id'
      · exact .inl hsame
      · exact .inr (.inl hnone)
      · exact .inr (.inr ⟨task, List.mem_append_left _ htask, htaskId, hfetched⟩)
  sent := h.sent
  held := h.held
  bound := h.bound
  gone hopen id' hnone := by
    rw [live_staged] at hnone
    by_cases hid : id' = id
    · subst hid
      rw [Function.update_self] at hnone
      cases hnone
    · rw [Function.update_of_ne hid] at hnone
      exact h.gone hopen id' hnone
  shown hopen id' := by
    rw [live_staged]
    by_cases hid : id' = id
    · subst hid
      exact .inr ⟨_, List.mem_append_right _ List.mem_cons_self, rfl⟩
    · rw [Function.update_of_ne hid]
      obtain hsame | ⟨task, htask, htaskId⟩ := h.shown hopen id'
      · exact .inl hsame
      · exact .inr ⟨task, List.mem_append_left _ htask, htaskId⟩

theorem Tracks.erase (h : v.Tracks s) {id : U} (hqueried : s.reader ≠ .queried) :
    v.Tracks { s with
      staged := s.staged ++ [(id, none)]
      sent := s.sent ++ [.remove (v.path id)] } := by
  have hseen (hopen : s.reader ≠ .closed) : v.seen { s with
      staged := s.staged ++ [(id, none)]
      sent := s.sent ++ [.remove (v.path id)] } = Function.update (v.seen s) id none :=
    Eq.trans (h.seen_sent hopen hqueried rfl rfl rfl) (v.remove_effect id _)
  constructor
  case fits =>
    intro id' row' hrow
    rw [live_staged] at hrow
    by_cases hid : id' = id
    · subst hid
      rw [Function.update_self] at hrow
      cases hrow
    · rw [Function.update_of_ne hid] at hrow
      exact h.fits id' row' hrow
  case rows => exact h.rows
  case changed =>
    intro id'
    rw [live_staged]
    by_cases hid : id' = id
    · subst hid
      exact .inr (.inl (Function.update_self _ _ _))
    · rw [Function.update_of_ne hid]
      exact h.changed id'
  case sent =>
    exact List.forall_mem_append.mpr ⟨h.sent, List.forall_mem_singleton.mpr (.remove id)⟩
  case held => exact h.held
  case bound =>
    intro next hnext
    have hle := h.bound next hnext
    simp only [List.length_append]
    omega
  case gone =>
    intro hopen id' hnone
    rw [hseen hopen]
    rw [live_staged] at hnone
    by_cases hid : id' = id
    · subst hid
      exact Function.update_self _ _ _
    · rw [Function.update_of_ne hid] at hnone ⊢
      exact h.gone hopen id' hnone
  case shown =>
    intro hopen id'
    rw [hseen hopen, live_staged]
    by_cases hid : id' = id
    · subst hid
      rw [Function.update_self, Function.update_self]
      exact .inl rfl
    · rw [Function.update_of_ne hid, Function.update_of_ne hid]
      exact h.shown hopen id'

theorem Tracks.commit (h : v.Tracks s) : v.Tracks { s with rows := s.live, staged := [] } where
  fits := h.fits
  rows := h.fits
  changed _ := .inl rfl
  sent := h.sent
  held := h.held
  bound := h.bound
  gone := h.gone
  shown := h.shown

theorem Tracks.refresh (h : v.Tracks s) (task : HookTask U ρ) :
    v.Tracks { s with tasks := s.tasks ++ [task] } where
  fits := h.fits
  rows := h.rows
  changed id := by
    obtain hsame | hnone | ⟨task, htask, htaskId, hfetched⟩ := h.changed id
    · exact .inl hsame
    · exact .inr (.inl hnone)
    · exact .inr (.inr ⟨task, List.mem_append_left _ htask, htaskId, hfetched⟩)
  sent := h.sent
  held := h.held
  bound := h.bound
  gone := h.gone
  shown hopen id := by
    obtain hsame | ⟨task, htask, htaskId⟩ := h.shown hopen id
    · exact .inl hsame
    · exact .inr ⟨task, List.mem_append_left _ htask, htaskId⟩

theorem mem_set_or_getElem? {α : Type} {l : List α} {a : α} (h : a ∈ l) (i : ℕ) (b : α) :
    a ∈ l.set i b ∨ l[i]? = some a := by
  obtain ⟨j, hj⟩ := List.mem_iff_getElem?.mp h
  by_cases hij : i = j
  · subst hij
    exact .inr hj
  · refine .inl (List.mem_iff_getElem?.mpr ⟨j, ?_⟩)
    rw [List.getElem?_set_ne hij]
    exact hj

theorem mem_eraseIdx_or_getElem? {α : Type} {l : List α} {a : α} (h : a ∈ l) (i : ℕ) :
    a ∈ l.eraseIdx i ∨ l[i]? = some a := by
  obtain ⟨j, hj⟩ := List.mem_iff_getElem?.mp h
  by_cases hij : j = i
  · subst hij
    exact .inr hj
  · exact .inl (List.mem_eraseIdx_iff_getElem?.mpr ⟨j, hij, hj⟩)

theorem mem_set_getElem? {α : Type} {l : List α} {a : α} {i : ℕ} (h : l[i]? = some a) (b : α) :
    b ∈ l.set i b :=
  List.mem_set ((List.getElem?_eq_some_iff.mp h).1) b

/-- A task that fetches a row which is not committed as it stands has not fetched it. -/
theorem Tracks.fetch (h : v.Tracks s) {i : ℕ} {task : HookTask U ρ} (htask : s.tasks[i]? = some task) :
    v.Tracks { s with tasks := s.tasks.set i { task with fetched := some (s.rows task.id) } } where
  fits := h.fits
  rows := h.rows
  changed id := by
    by_cases hsame : s.rows id = s.live id
    · exact .inl hsame
    obtain hsame' | hnone | ⟨other, hother, hotherId, hfetched⟩ := h.changed id
    · exact absurd hsame' hsame
    · exact .inr (.inl hnone)
    refine .inr (.inr ?_)
    obtain hkept | hset := mem_set_or_getElem? hother i
      { task with fetched := some (s.rows task.id) }
    · exact ⟨other, hkept, hotherId, hfetched⟩
    · obtain rfl : task = other := Option.some.inj (htask.symm.trans hset)
      refine ⟨_, mem_set_getElem? htask _, hotherId, fun heq => hsame ?_⟩
      have hrow := Option.some.inj heq
      rw [hotherId] at hrow
      exact hrow
  sent := h.sent
  held := h.held
  bound := h.bound
  gone := h.gone
  shown hopen id := by
    obtain hsame | ⟨other, hother, hotherId⟩ := h.shown hopen id
    · exact .inl hsame
    obtain hkept | hset := mem_set_or_getElem? hother i
      { task with fetched := some (s.rows task.id) }
    · exact .inr ⟨other, hkept, hotherId⟩
    · obtain rfl : task = other := Option.some.inj (htask.symm.trans hset)
      exact .inr ⟨_, mem_set_getElem? htask _, hotherId⟩

/-- A task that has fetched the row as it stands brings it to the client. -/
theorem Tracks.seen_push (h : v.Tracks s) (hopen : s.reader ≠ .closed)
    (hqueried : s.reader ≠ .queried) {tasks : List (HookTask U ρ)} (task : HookTask U ρ) :
    v.seen { s with
      tasks := tasks
      sent := s.sent ++ (v.announcement task (s.live task.id)).toList } =
      Function.update (v.seen s) task.id (v.shows (s.live task.id)) := by
  refine Eq.trans (h.seen_sent hopen hqueried rfl rfl rfl) ?_
  cases hlive : s.live task.id with
  | some row =>
    have hfits := h.fits task.id row hlive
    cases hinsert : task.insert with
    | true =>
      simp only [announcement, hinsert, if_true, Option.toList_some, List.foldl_cons, List.foldl_nil]
      exact h.heldSeen.apply_upsert hfits (.inl rfl)
    | false =>
      simp only [announcement, hinsert, Bool.false_eq_true, if_false, Option.toList_some,
        List.foldl_cons, List.foldl_nil]
      exact h.heldSeen.apply_upsert hfits (.inr rfl)
  | none =>
    have hnone : v.seen s task.id = v.shows none := h.gone hopen task.id hlive
    rw [← hnone, Function.update_eq_self]
    cases hgone : v.gone with
    | none => simp [announcement, hgone]
    | some op =>
      simp only [announcement, hgone, Option.toList_some, List.foldl_cons, List.foldl_nil]
      exact v.other_effect op (v.gone_other op hgone) _

theorem Tracks.announcement (h : v.Tracks s) (task : HookTask U ρ) :
    ∀ op ∈ (v.announcement task (s.live task.id)).toList, v.Broadcast op := by
  intro op hop
  rw [Option.mem_toList] at hop
  cases hlive : s.live task.id with
  | some row =>
    rw [hlive, LiveView.announcement] at hop
    split_ifs at hop
    · exact Option.some.inj hop ▸ .add (h.fits task.id row hlive)
    · exact Option.some.inj hop ▸ .replace (h.fits task.id row hlive)
  | none =>
    rw [hlive] at hop
    exact .other (v.gone_other op hop)

theorem Tracks.push (h : v.Tracks s) {i : ℕ} {task : HookTask U ρ}
    (htask : s.tasks[i]? = some task) (hfetched : task.fetched = some (s.live task.id))
    (hqueried : s.reader ≠ .queried) :
    v.Tracks { s with
      tasks := s.tasks.eraseIdx i
      sent := s.sent ++ (v.announcement task (s.live task.id)).toList } where
  fits := h.fits
  rows := h.rows
  changed id := by
    obtain hsame | hnone | ⟨other, hother, hotherId, hstale⟩ := h.changed id
    · exact .inl hsame
    · exact .inr (.inl hnone)
    refine .inr (.inr ⟨other, ?_, hotherId, hstale⟩)
    obtain hkept | herased := mem_eraseIdx_or_getElem? hother i
    · exact hkept
    · obtain rfl : task = other := Option.some.inj (htask.symm.trans herased)
      rw [hotherId] at hfetched
      exact absurd hfetched hstale
  sent := List.forall_mem_append.mpr ⟨h.sent, h.announcement task⟩
  held := h.held
  bound next hnext := by
    have hle := h.bound next hnext
    simp only [List.length_append]
    omega
  gone hopen id hnone := by
    rw [h.seen_push hopen hqueried task]
    by_cases hid : id = task.id
    · subst hid
      rw [Function.update_self, show s.live task.id = none from hnone]
      rfl
    · rw [Function.update_of_ne hid]
      exact h.gone hopen id hnone
  shown hopen id := by
    rw [h.seen_push hopen hqueried task]
    by_cases hid : id = task.id
    · subst hid
      exact .inl (Function.update_self _ _ _)
    · rw [Function.update_of_ne hid]
      obtain hsame | ⟨other, hother, hotherId⟩ := h.shown hopen id
      · exact .inl hsame
      refine .inr ⟨other, ?_, hotherId⟩
      obtain hkept | herased := mem_eraseIdx_or_getElem? hother i
      · exact hkept
      · obtain rfl : task = other := Option.some.inj (htask.symm.trans herased)
        exact absurd hotherId.symm hid

theorem Tracks.seen_other (h : v.Tracks s) {op : PatchOperation U R} (hop : op.unrelated v.key) :
    v.seen { s with sent := s.sent ++ [op] } = v.seen s := by
  cases hreader : s.reader with
  | closed => simp only [seen, hreader]
  | queried => simp only [seen, hreader]
  | streaming next =>
    have hopen : s.reader ≠ .closed := by simp [hreader]
    have hqueried : s.reader ≠ .queried := by simp [hreader]
    exact Eq.trans (h.seen_sent hopen hqueried hreader.symm rfl rfl) (v.other_effect op hop _)

theorem Tracks.other (h : v.Tracks s) {op : PatchOperation U R} (hop : op.unrelated v.key) :
    v.Tracks { s with sent := s.sent ++ [op] } where
  fits := h.fits
  rows := h.rows
  changed := h.changed
  sent := List.forall_mem_append.mpr ⟨h.sent, List.forall_mem_singleton.mpr (.other hop)⟩
  held := h.held
  bound next hnext := by
    have hle := h.bound next hnext
    simp only [List.length_append]
    omega
  gone hopen id hnone := by
    rw [h.seen_other hop]
    exact h.gone hopen id hnone
  shown hopen id := by
    rw [h.seen_other hop]
    exact h.shown hopen id

theorem Tracks.snapshot (h : v.Tracks s) (herased : ∀ id, s.live id = none → s.rows id = none) :
    v.Tracks { s with reader := .queried, client := fun id => v.shows (s.rows id) } where
  fits := h.fits
  rows := h.rows
  changed := h.changed
  sent := h.sent
  held := held_shows h.rows
  bound next hnext := by cases hnext
  gone _ id hnone := congrArg v.shows (herased id hnone)
  shown _ id := by
    obtain hsame | hnone | ⟨task, htask, htaskId, _⟩ := h.changed id
    · exact .inl (congrArg v.shows hsame)
    · exact .inl (congrArg v.shows ((herased id hnone).trans hnone.symm))
    · exact .inr ⟨task, htask, htaskId⟩

/-- The client goes on with the same messages to read. -/
theorem Tracks.reading (h : v.Tracks s) (hopen : s.reader ≠ .closed) {next : ℕ}
    {client : ClientMap U R} (hnext : next ≤ s.sent.length) (hheld : v.Held client)
    (hseen : v.seen { s with reader := .streaming next, client := client } = v.seen s) :
    v.Tracks { s with reader := .streaming next, client := client } where
  fits := h.fits
  rows := h.rows
  changed := h.changed
  sent := h.sent
  held := hheld
  bound next' hnext' := StreamReader.streaming.inj hnext' ▸ hnext
  gone _ id hnone := by
    rw [hseen]
    exact h.gone hopen id hnone
  shown _ id := by
    rw [hseen]
    exact h.shown hopen id

theorem Tracks.step {capacity : ℕ} {event : LiveEvent U R ρ} (h : v.Tracks s)
    (hok : v.Orderly capacity s event) (hstep : v.step capacity s event = some s') :
    v.Tracks s' := by
  cases event with
  | write id row =>
    obtain rfl := Option.some.inj hstep
    exact h.write hok _
  | erase id =>
    simp only [LiveView.step] at hstep
    split_ifs at hstep
    obtain rfl := Option.some.inj hstep
    exact h.erase hok
  | commit =>
    obtain rfl := Option.some.inj hstep
    exact h.commit
  | refresh id =>
    obtain rfl := Option.some.inj hstep
    exact h.refresh _
  | recompute id row => exact hok.elim
  | fetch i =>
    obtain ⟨task, htask, hs'⟩ := Option.bind_eq_some_iff.mp hstep
    obtain rfl := Option.some.inj hs'
    exact h.fetch htask
  | push i =>
    obtain ⟨task, htask, hrest⟩ := Option.bind_eq_some_iff.mp hstep
    obtain ⟨fetched, hfetched, hs'⟩ := Option.bind_eq_some_iff.mp hrest
    obtain rfl := hok.2 task htask fetched hfetched
    obtain rfl := Option.some.inj hs'
    exact h.push htask hfetched hok.1
  | other op =>
    simp only [LiveView.step] at hstep
    split_ifs at hstep with hop
    obtain rfl := Option.some.inj hstep
    exact h.other hop
  | snapshot =>
    simp only [LiveView.step] at hstep
    split at hstep
    · obtain rfl := Option.some.inj hstep
      exact h.snapshot hok
    · cases hstep
  | subscribe =>
    simp only [LiveView.step] at hstep
    split at hstep
    · rename_i hqueried
      obtain rfl := Option.some.inj hstep
      refine h.reading (by simp [hqueried]) (Nat.le_refl _) h.held ?_
      simp only [seen, hqueried, List.drop_length, List.foldl_nil]
    · cases hstep
  | read =>
    simp only [LiveView.step] at hstep
    split at hstep
    · rename_i next hstreaming
      rw [if_neg (Nat.not_lt.mpr (hok next hstreaming))] at hstep
      obtain ⟨op, hop, hs'⟩ := Option.bind_eq_some_iff.mp hstep
      obtain rfl := Option.some.inj hs'
      obtain ⟨hlt, hget⟩ := List.getElem?_eq_some_iff.mp hop
      refine h.reading (by simp [hstreaming]) hlt ?_ ?_
      · exact (h.sent op (List.mem_of_getElem? hop)).held h.held
      · simp only [seen, hstreaming, List.drop_eq_getElem_cons hlt, hget, List.foldl_cons]
    · cases hstep

theorem tracks_new {rows : U → Option ρ} (hrows : ∀ id row, rows id = some row → v.fits id row) :
    v.Tracks (.new rows) where
  fits := hrows
  rows := hrows
  changed _ := .inl rfl
  sent op hop := by cases hop
  held id value hvalue := by cases hvalue
  bound next hnext := by cases hnext
  gone hopen := absurd rfl hopen
  shown hopen := absurd rfl hopen

theorem Tracks.settled (h : v.Tracks s) (hsettled : s.Settled) (id : U) :
    s.client id = v.shows (s.rows id) := by
  obtain ⟨hstaged, htasks, hreader⟩ := hsettled
  have hopen : s.reader ≠ .closed := by simp [hreader]
  have hseen : v.seen s = s.client := by
    simp only [seen, hreader, List.drop_length, List.foldl_nil]
  have hlive : s.live = s.rows := by simp [LiveState.live, hstaged]
  obtain hsame | ⟨task, htask, _⟩ := h.shown hopen id
  · rw [hseen, hlive] at hsame
    exact hsame
  · rw [htasks] at htask
    cases htask

/-- The client's entries are rows of the stream all along, and once all is read they are exactly the
rows as they stand. -/
theorem converges {capacity : ℕ} {rows : U → Option ρ} {events : List (LiveEvent U R ρ)}
    (hrows : ∀ id row, rows id = some row → v.fits id row)
    (hrun : Run (v.step capacity) (v.Orderly capacity) (.new rows) events s) :
    v.Held s.client ∧ (s.Settled → ∀ id, s.client id = v.shows (s.rows id)) := by
  have htracks : v.Tracks s :=
    hrun.invariant (fun _ _ _ h hok hstep => h.step hok hstep) (tracks_new hrows)
  exact ⟨htracks.held, htracks.settled⟩

end LiveView

/-- In every orderly run both row streams only ever show rows of their filter, and once every change
is committed, broadcast and read they show exactly those rows with their latest values. -/
theorem live_views_converge (capacity : ℕ) :
    (∀ (owner : U → U) (sessionId : U) (showSoftDeleted : Bool)
        (rows : U → Option (ExecutionProcess U R)) (events : List (LiveEvent U R (ExecutionProcess U R)))
        (s : LiveState U R (ExecutionProcess U R)),
        (∀ id row, rows id = some row → row.id = id ∧ row.sessionId = owner id) →
        Run ((processView owner sessionId showSoftDeleted).step capacity)
          ((processView owner sessionId showSoftDeleted).Orderly capacity) (.new rows) events s →
        (∀ id value, s.client id = some value → ∃ row, value = .process row ∧ row.id = id ∧
          row.sessionId = sessionId ∧ (showSoftDeleted ∨ row.dropped = false)) ∧
        (s.Settled → ∀ id, s.client id = ((s.rows id).filter fun row =>
          row.sessionId = sessionId && (showSoftDeleted || !row.dropped)).map .process)) ∧
    (∀ (archived : Option Bool)
        (rows : U → Option (WorkspaceWithStatus U R))
        (events : List (LiveEvent U R (WorkspaceWithStatus U R)))
        (s : LiveState U R (WorkspaceWithStatus U R)),
        (∀ id row, rows id = some row → row.id = id) →
        Run ((workspaceView archived).step capacity) ((workspaceView archived).Orderly capacity)
          (.new rows) events s →
        (∀ id value, s.client id = some value → ∃ row, value = .workspace row ∧ row.id = id ∧
          ∀ filter ∈ archived, row.archived = filter) ∧
        (s.Settled → ∀ id, s.client id = ((s.rows id).filter fun row =>
          archived.all fun filter => row.archived = filter).map .workspace)) := by
  constructor
  · intro owner sessionId showSoftDeleted rows events s hrows hrun
    obtain ⟨hheld, hsettled⟩ := LiveView.converges hrows hrun
    refine ⟨fun id value hvalue => ?_, hsettled⟩
    obtain ⟨row, ⟨hid, _⟩, hkeep, rfl⟩ := hheld id value hvalue
    have hkeep : (row.sessionId = sessionId && (showSoftDeleted || !row.dropped)) = true := hkeep
    simp only [Bool.and_eq_true, decide_eq_true_eq, Bool.or_eq_true, Bool.not_eq_true'] at hkeep
    exact ⟨row, rfl, hid, hkeep.1, hkeep.2⟩
  · intro archived rows events s hrows hrun
    obtain ⟨hheld, hsettled⟩ := LiveView.converges hrows hrun
    refine ⟨fun id value hvalue => ?_, hsettled⟩
    obtain ⟨row, hid, hkeep, rfl⟩ := hheld id value hvalue
    refine ⟨row, rfl, hid, fun filter hfilter => ?_⟩
    have hall : archived.all (fun filter => row.archived = filter) = true := hkeep
    rw [Option.mem_def.mp hfilter] at hall
    simpa using hall

section Runs

/-- One workspace, archived or not. -/
def oneWorkspace (archived : Bool) : ℕ → Option (WorkspaceWithStatus ℕ Unit) :=
  fun id => if id = 0 then some ⟨0, archived, ()⟩ else none

/-- One process of session 7. -/
def oneProcess : ℕ → Option (ExecutionProcess ℕ Unit) :=
  fun id => if id = 0 then some ⟨0, 7, false, ()⟩ else none

/-- A client opens a stream, a row is written, and the hook broadcasts it. -/
def openAndWrite {ρ : Type} (row : ρ) : List (LiveEvent ℕ Unit ρ) :=
  [.snapshot, .subscribe, .write 0 row, .commit, .fetch 0, .push 0]

section
variable {ρ : Type} (v : LiveView ℕ Unit ρ) (rows : ℕ → Option ρ) (row : ρ)

/-- The state in which the broadcast is to be read. -/
def written : LiveState ℕ Unit ρ :=
  ⟨Function.update rows 0 (some row), [], [], [.replace (v.path 0) (v.value row)], .streaming 0,
    fun id => v.shows (rows id)⟩

variable {row}

theorem openAndWrite_run {old : ρ} (hold : rows 0 = some old) (hfits : v.fits 0 row)
    {rest : List (LiveEvent ℕ Unit ρ)} {s : LiveState ℕ Unit ρ}
    (hrest : Run (v.step 131072) (v.Orderly 131072) (written v rows row) rest s) :
    Run (v.step 131072) (v.Orderly 131072) (.new rows) (openAndWrite row ++ rest) s := by
  refine .cons (fun _ h => h) rfl (.cons trivial rfl (.cons hfits rfl (.cons trivial rfl
    (.cons trivial rfl (.cons ⟨?_, ?_⟩ ?_ hrest)))))
  · simp
  · simp [LiveState.live, LiveState.new]
  · simp [LiveView.step, LiveView.announcement, LiveState.live, LiveState.new, hold, written]

theorem written_read : Run (v.step 131072) (v.Orderly 131072) (written v rows row) [.read]
    { written v rows row with
      reader := .streaming 1
      client := v.apply (fun id => v.shows (rows id)) (.replace (v.path 0) (v.value row)) } := by
  refine .cons (fun next _ => ?_) rfl (.nil _)
  simp only [written, List.length_singleton]
  omega

end

/-- An archived workspace changes: the stream of the others removes a key that it does not have. -/
theorem stream_removes_absent_key :
    ∃ s, Run ((workspaceView (some false)).step 131072) ((workspaceView (some false)).Orderly 131072)
        (.new (oneWorkspace true)) (openAndWrite ⟨0, true, ()⟩) s ∧
      s.reader = .streaming 0 ∧ s.client 0 = none ∧
      filterWorkspace (some false) (.jsonPatch s.sent) =
        some (.jsonPatch [.remove (.workspace 0)]) ∧
      applyStrict workspaceKey s.client (.remove (.workspace 0)) = none := by
  have hfits : (workspaceView (R := Unit) (some false)).fits 0 ⟨0, true, ()⟩ := rfl
  exact ⟨_, openAndWrite_run (workspaceView (some false)) (oneWorkspace true) rfl hfits (.nil _), rfl,
    rfl, rfl, rfl⟩

/-- A process is dropped and a workspace archived: both leave their streams. -/
theorem live_views_converge_leaving :
    (∃ s, Run ((processView (fun _ => 7) 7 false).step 131072)
        ((processView (fun _ => 7) 7 false).Orderly 131072) (.new oneProcess)
        (openAndWrite ⟨0, 7, true, ()⟩ ++ [.read]) s ∧ s.Settled ∧ s.client 0 = none) ∧
      ∃ s, Run ((workspaceView (some false)).step 131072)
        ((workspaceView (some false)).Orderly 131072) (.new (oneWorkspace false))
        (openAndWrite ⟨0, true, ()⟩ ++ [.read]) s ∧ s.Settled ∧ s.client 0 = none := by
  constructor
  · have hfits : (processView (R := Unit) (fun _ => 7) 7 false).fits 0 ⟨0, 7, true, ()⟩ :=
      ⟨rfl, rfl⟩
    have hrun := openAndWrite_run (processView (fun _ => 7) 7 false) oneProcess rfl hfits
      (written_read _ _)
    have hrows (id : ℕ) (row : ExecutionProcess ℕ Unit) (hrow : oneProcess id = some row) :
        row.id = id ∧ row.sessionId = 7 := by
      obtain ⟨rfl, rfl⟩ := (by simpa [oneProcess] using hrow : id = 0 ∧ ⟨0, 7, false, ()⟩ = row)
      exact ⟨rfl, rfl⟩
    refine ⟨_, hrun, ⟨rfl, rfl, rfl⟩, ?_⟩
    exact ((live_views_converge 131072).1 (fun _ => 7) 7 false oneProcess _ _ hrows hrun).2
      ⟨rfl, rfl, rfl⟩ 0
  · have hfits : (workspaceView (R := Unit) (some false)).fits 0 ⟨0, true, ()⟩ := rfl
    have hrun := openAndWrite_run (workspaceView (some false)) (oneWorkspace false) rfl hfits
      (written_read _ _)
    have hrows (id : ℕ) (row : WorkspaceWithStatus ℕ Unit) (hrow : oneWorkspace false id = some row) :
        row.id = id := by
      obtain ⟨rfl, rfl⟩ := (by simpa [oneWorkspace] using hrow : id = 0 ∧ ⟨0, false, ()⟩ = row)
      rfl
    refine ⟨_, hrun, ⟨rfl, rfl, rfl⟩, ?_⟩
    exact ((live_views_converge 131072).2 (some false) (oneWorkspace false) _ _ hrows hrun).2
      ⟨rfl, rfl, rfl⟩ 0

end Runs

end VibeKanban.Events
