import Mathlib.Data.List.AList

/-! Hash maps as association lists. The order of the entries is the order of iteration; what a map holds is
what its lookups give. -/
namespace VibeKanban.Lib

universe u v w

/-- A hash map. -/
abbrev Dict (κ : Type u) (α : Type v) := AList fun _ : κ => α

namespace Dict
variable {κ : Type u} {α : Type v} {β : Type w} [DecidableEq κ] {k : κ}

/-- The map with every value changed. -/
def mapValues (f : α → β) (d : Dict κ α) : Dict κ β where
  entries := d.entries.map fun entry => ⟨entry.1, f entry.2⟩
  nodupKeys := d.nodupKeys.map₂ fun _ => f

theorem lookup_mapValues (f : α → β) (d : Dict κ α) :
    (d.mapValues f).lookup k = (d.lookup k).map f :=
  List.dlookup_map₂ (l := d.entries) (f := fun _ => f) k

theorem mapValues_eq_self {f : α → α} {d : Dict κ α}
    (h : ∀ key value, d.lookup key = some value → f value = value) :
    d.mapValues f = d := by
  apply AList.ext
  show d.entries.map (fun entry => ⟨entry.1, f entry.2⟩) = d.entries
  rw [List.map_congr_left, List.map_id]
  intro entry hentry
  rw [h entry.1 entry.2 (AList.mem_lookup_iff.mpr hentry)]
  rfl

/-- Every entry put into a map, combined with what the map has under its key. -/
def upsertAll (combine : Option α → α → α) (entries : List ((_ : κ) × α)) (base : Dict κ α) : Dict κ α :=
  entries.foldl (fun d entry => d.insert entry.1 (combine (d.lookup entry.1) entry.2)) base

theorem lookup_upsertAll (combine : Option α → α → α) (d base : Dict κ α) :
    (upsertAll combine d.entries base).lookup k =
      match d.lookup k with
      | some value => some (combine (base.lookup k) value)
      | none => base.lookup k := by
  obtain ⟨entries, hentries⟩ := d
  show (upsertAll combine entries base).lookup k = match entries.dlookup k with
    | some value => some (combine (base.lookup k) value)
    | none => base.lookup k
  induction entries generalizing base with
  | nil => rfl
  | cons entry rest ih =>
    obtain ⟨hfresh, hrest⟩ := List.nodupKeys_cons.mp hentries
    unfold upsertAll at ih ⊢
    rw [List.foldl_cons, ih _ hrest]
    by_cases hk : k = entry.1
    · subst hk
      rw [List.dlookup_eq_none.mpr hfresh, List.dlookup_cons_eq]
      exact AList.lookup_insert base
    · rw [List.dlookup_cons_ne _ _ hk, AList.lookup_insert_ne hk]

/-- The map of the entries that are kept, with the values they are kept with. -/
def filterMapEntries (f : κ → α → Option β) (d : Dict κ α) : Dict κ β :=
  d.entries.foldl (fun kept entry =>
    match f entry.1 entry.2 with
    | some value => kept.insert entry.1 value
    | none => kept) ∅

theorem lookup_filterMapEntries (f : κ → α → Option β) (d : Dict κ α) :
    (d.filterMapEntries f).lookup k = (d.lookup k).bind (f k) := by
  have hgeneral : ∀ (entries : List ((_ : κ) × α)) (kept : Dict κ β), entries.NodupKeys →
      (∀ key ∈ entries.keys, kept.lookup key = none) →
      (entries.foldl (fun kept entry =>
        match f entry.1 entry.2 with
        | some value => kept.insert entry.1 value
        | none => kept) kept).lookup k = (kept.lookup k).or ((entries.dlookup k).bind (f k)) := by
    intro entries
    induction entries with
    | nil => simp
    | cons entry rest ih =>
      intro kept hentries hfresh
      obtain ⟨hnew, hrest⟩ := List.nodupKeys_cons.mp hentries
      have hentry : kept.lookup entry.1 = none := hfresh entry.1 (by simp)
      have hothers : ∀ key ∈ rest.keys, kept.lookup key = none := fun key hkey => hfresh key (by simp [hkey])
      rw [List.foldl_cons]
      by_cases hk : k = entry.1
      · subst hk
        rw [List.dlookup_cons_eq, Option.bind_some, hentry, Option.none_or]
        cases hf : f entry.1 entry.2 with
        | none => rw [ih kept hrest hothers, hentry, List.dlookup_eq_none.mpr hnew]; rfl
        | some value =>
          rw [ih _ hrest, AList.lookup_insert, Option.some_or]
          intro key hkey
          rw [AList.lookup_insert_ne (fun heq : key = entry.1 => hnew (heq ▸ hkey))]
          exact hothers key hkey
      · rw [List.dlookup_cons_ne _ _ hk]
        cases hf : f entry.1 entry.2 with
        | none => exact ih kept hrest hothers
        | some value =>
          rw [ih _ hrest, AList.lookup_insert_ne hk]
          intro key hkey
          rw [AList.lookup_insert_ne (fun heq : key = entry.1 => hnew (heq ▸ hkey))]
          exact hothers key hkey
  have h := hgeneral d.entries ∅ d.nodupKeys (by simp)
  rw [AList.lookup_empty, Option.none_or] at h
  exact h

theorem entries_eq_nil {d : Dict κ α} : d.entries = [] ↔ ∀ key, d.lookup key = none := by
  constructor
  · intro h key
    rw [AList.lookup, h]
    rfl
  · intro h
    by_contra hne
    obtain ⟨entry, hentry⟩ := List.exists_mem_of_ne_nil _ hne
    have hlookup : d.lookup entry.1 = some entry.2 := AList.mem_lookup_iff.mpr hentry
    rw [h] at hlookup
    cases hlookup

end Dict

end VibeKanban.Lib
