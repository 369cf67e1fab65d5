import Mathlib.Data.List.Nodup
import Mathlib.Data.List.Pairwise
import VibeKanban.Lib.Table

/-! Upserts of many rows, one at a time, into a table with uniqueness constraints: when they all
succeed, and which rows the table then has. -/
namespace VibeKanban.Lib

section Put
variable {ρ κ : Type*} [DecidableEq κ] (key : ρ → κ)

/-- Replace the row with the key, or append. -/
def put (row : ρ) (table : List ρ) : List ρ :=
  if table.any fun r => key r = key row then
    updateWhere (fun r => key r = key row) (fun _ => row) table
  else table ++ [row]

variable {key}

theorem any_key_iff {row : ρ} {table : List ρ} :
    (table.any fun r => key r = key row) = true ↔ key row ∈ table.map key := by
  simp only [List.any_eq_true, decide_eq_true_eq, List.mem_map]

theorem mem_put {row r : ρ} {table : List ρ} :
    r ∈ put key row table ↔ r = row ∨ (r ∈ table ∧ key r ≠ key row) := by
  unfold put
  split_ifs with h
  · obtain ⟨old, hold, hkey⟩ := List.any_eq_true.mp h
    rw [mem_updateWhere]
    constructor
    · rintro (⟨_, _, _, rfl⟩ | ⟨hr, hk⟩)
      · exact Or.inl rfl
      · exact Or.inr ⟨hr, of_decide_eq_false hk⟩
    · rintro (rfl | ⟨hr, hk⟩)
      · exact Or.inl ⟨old, hold, hkey, rfl⟩
      · exact Or.inr ⟨hr, decide_eq_false hk⟩
  · rw [List.mem_append, List.mem_singleton]
    have hfresh : ∀ r ∈ table, key r ≠ key row := by
      intro r hr hk
      exact h (List.any_eq_true.mpr ⟨r, hr, by simpa using hk⟩)
    constructor
    · rintro (hr | rfl)
      · exact Or.inr ⟨hr, hfresh r hr⟩
      · exact Or.inl rfl
    · rintro (rfl | ⟨hr, _⟩)
      · exact Or.inr rfl
      · exact Or.inl hr

theorem nodup_put {row : ρ} {table : List ρ} (h : (table.map key).Nodup) :
    ((put key row table).map key).Nodup := by
  unfold put
  split_ifs with hany
  · have hkeys : (updateWhere (fun r => key r = key row) (fun _ => row) table).map key
        = table.map key := by
      rw [updateWhere, List.map_map]
      refine List.map_congr_left fun r _ => ?_
      rw [Function.comp_apply]
      split_ifs with hk
      · exact (of_decide_eq_true hk).symm
      · rfl
    rwa [hkeys]
  · rw [List.map_append, List.map_singleton, List.nodup_append]
    refine ⟨h, List.nodup_singleton _, ?_⟩
    intro k hk k' hk' heq
    rw [List.mem_singleton.mp hk'] at heq
    exact hany (any_key_iff.mpr (heq ▸ hk))

end Put

section Upsert
variable {ρ κ : Type*} [DecidableEq κ] (key : ρ → κ) (clash : ρ → ρ → Bool)

/-- `INSERT … ON CONFLICT(key) DO UPDATE`: refused when a row with another key clashes with the new
one. -/
def upsert (row : ρ) (table : List ρ) : Option (List ρ) :=
  if table.any fun r => key r ≠ key row && clash r row then none else some (put key row table)

def upsertAll : List ρ → List ρ → Option (List ρ)
  | [], table => some table
  | row :: rest, table => (upsert key clash row table).bind (upsertAll rest)

/-- No row meets a value that another row still holds when its turn comes: not one of the rows
before it, and not one of the table that none of these has replaced. -/
def Fits (rows table : List ρ) : Prop :=
  rows.Pairwise (fun a b => clash a b = false) ∧
  ∀ before row after, rows = before ++ row :: after →
    ∀ r ∈ table, clash r row = true → key r ∈ (before ++ [row]).map key

variable {key clash}

theorem upsert_eq_some {row : ρ} {table table' : List ρ} :
    upsert key clash row table = some table' ↔
      (∀ r ∈ table, clash r row = true → key r = key row) ∧ table' = put key row table := by
  unfold upsert
  split_ifs with h
  · simp only [false_iff, not_and]
    intro hall
    obtain ⟨r, hr, hboth⟩ := List.any_eq_true.mp h
    simp only [ne_eq, decide_not, Bool.and_eq_true, Bool.not_eq_eq_eq_not, Bool.not_true,
      decide_eq_false_iff_not] at hboth
    exact (hboth.1 (hall r hr hboth.2)).elim
  · rw [Option.some.injEq, eq_comm, iff_and_self]
    intro _ r hr hclash
    by_contra hne
    exact h (List.any_eq_true.mpr ⟨r, hr, by simp [hne, hclash]⟩)

/-- The rows after all upserts: those put, and the old ones with other keys. -/
theorem mem_upsertAll {rows table table' : List ρ} (hrows : (rows.map key).Nodup)
    (h : upsertAll key clash rows table = some table') {r : ρ} :
    r ∈ table' ↔ r ∈ rows ∨ (r ∈ table ∧ key r ∉ rows.map key) := by
  induction rows generalizing table with
  | nil =>
    cases h
    simp
  | cons row rest ih =>
    obtain ⟨middle, hrow, hrest⟩ := Option.bind_eq_some_iff.mp h
    obtain ⟨_, rfl⟩ := upsert_eq_some.mp hrow
    rw [List.map_cons, List.nodup_cons] at hrows
    rw [ih hrows.2 hrest, mem_put, List.mem_cons, List.map_cons, List.mem_cons, not_or]
    constructor
    · rintro (hr | ⟨rfl | ⟨hr, hne⟩, hnot⟩)
      · exact Or.inl (Or.inr hr)
      · exact Or.inl (Or.inl rfl)
      · exact Or.inr ⟨hr, hne, hnot⟩
    · rintro ((rfl | hr) | ⟨hr, hne, hnot⟩)
      · exact Or.inr ⟨Or.inl rfl, hrows.1⟩
      · exact Or.inl hr
      · exact Or.inr ⟨Or.inr ⟨hr, hne⟩, hnot⟩

theorem nodup_upsertAll {rows table table' : List ρ} (htable : (table.map key).Nodup)
    (h : upsertAll key clash rows table = some table') : (table'.map key).Nodup := by
  induction rows generalizing table with
  | nil =>
    cases h
    exact htable
  | cons row rest ih =>
    obtain ⟨middle, hrow, hrest⟩ := Option.bind_eq_some_iff.mp h
    obtain ⟨_, rfl⟩ := upsert_eq_some.mp hrow
    exact ih (nodup_put htable) hrest

/-- The first row of a sequence that fits, and the rest of it. -/
theorem fits_cons {row : ρ} {rest table : List ρ} (hrows : ((row :: rest).map key).Nodup) :
    Fits key clash (row :: rest) table ↔
      (∀ r ∈ table, clash r row = true → key r = key row) ∧
        Fits key clash rest (put key row table) := by
  rw [List.map_cons, List.nodup_cons] at hrows
  constructor
  · rintro ⟨hpair, hall⟩
    rw [List.pairwise_cons] at hpair
    refine ⟨?_, hpair.2, ?_⟩
    · intro r hr hclash
      simpa using hall [] row rest rfl r hr hclash
    · rintro before next after rfl r hr hclash
      rcases mem_put.mp hr with rfl | ⟨hr, hne⟩
      · rw [hpair.1 next (by simp)] at hclash
        cases hclash
      · have hkey := hall (row :: before) next after rfl r hr hclash
        rw [List.cons_append, List.map_cons, List.mem_cons] at hkey
        exact hkey.resolve_left hne
  · rintro ⟨hfirst, hpair, hall⟩
    refine ⟨List.pairwise_cons.mpr ⟨?_, hpair⟩, ?_⟩
    · intro next hnext
      by_contra hclash
      obtain ⟨before, after, rfl⟩ := List.append_of_mem hnext
      have hkey := hall before next after rfl row (mem_put.mpr (Or.inl rfl)) (by simpa using hclash)
      refine hrows.1 (List.map_subset key ?_ hkey)
      intro r hr
      rw [List.mem_append, List.mem_singleton] at hr
      rcases hr with hr | rfl
      · exact List.mem_append_left _ hr
      · exact hnext
    · intro before next after heq r hr hclash
      cases before with
      | nil =>
        obtain ⟨rfl, rfl⟩ := List.cons.inj heq
        simpa using hfirst r hr hclash
      | cons b before =>
        obtain ⟨rfl, rfl⟩ := List.cons.inj heq
        rw [List.cons_append, List.map_cons, List.mem_cons]
        by_cases hkey : key r = key row
        · exact Or.inl hkey
        · exact Or.inr (hall before next after rfl r (mem_put.mpr (Or.inr ⟨hr, hkey⟩)) hclash)

/-- All upserts succeed exactly when the rows fit. -/
theorem upsertAll_isSome {rows table : List ρ} (hrows : (rows.map key).Nodup) :
    (∃ table', upsertAll key clash rows table = some table') ↔ Fits key clash rows table := by
  induction rows generalizing table with
  | nil =>
    refine iff_of_true ⟨table, rfl⟩ ⟨List.Pairwise.nil, ?_⟩
    intro before row after heq
    simp at heq
  | cons row rest ih =>
    have hrest : (rest.map key).Nodup := (List.nodup_cons.mp hrows).2
    rw [fits_cons hrows, ← ih hrest]
    constructor
    · rintro ⟨table', h⟩
      obtain ⟨middle, hrow, hrest⟩ := Option.bind_eq_some_iff.mp h
      obtain ⟨hfirst, rfl⟩ := upsert_eq_some.mp hrow
      exact ⟨hfirst, table', hrest⟩
    · rintro ⟨hfirst, table', hrest⟩
      refine ⟨table', ?_⟩
      rw [upsertAll, upsert_eq_some.mpr ⟨hfirst, rfl⟩]
      exact hrest

end Upsert

end VibeKanban.Lib
