import Mathlib.Data.List.Induction
import VibeKanban.Lib.Upsert

/-! Lists of named fields in which a name may occur more than once: edits of the first field with a name,
and the reading in which the last one wins. -/
namespace VibeKanban.Lib

variable {κ V : Type} [DecidableEq κ]

/-- The values of the fields with a name, in order. -/
def named (name : κ) (fields : List (κ × V)) : List V :=
  (fields.filter fun field => field.1 = name).map Prod.snd

def editFirst (name : κ) (f : V → V) : List (κ × V) → List (κ × V)
  | [] => []
  | field :: rest =>
    if field.1 = name then (name, f field.2) :: rest else field :: editFirst name f rest

def removeFirst (name : κ) (fields : List (κ × V)) : List (κ × V) :=
  fields.eraseP fun field => field.1 = name

/-- One field for each name, with the value of the last one. -/
def lastWins (fields : List (κ × V)) : List (κ × V) :=
  fields.foldl (fun read field => put Prod.fst field read) []

section Named
variable {name other : κ} {f : V → V} {fields : List (κ × V)}

theorem named_cons (field : κ × V) :
    named name (field :: fields) =
      if field.1 = name then field.2 :: named name fields else named name fields := by
  rw [named, List.filter_cons]
  split_ifs with h h' h'
  · rfl
  · simp [h'] at h
  · simp [h'] at h
  · rfl

theorem named_append (rest : List (κ × V)) :
    named name (fields ++ rest) = named name fields ++ named name rest := by
  rw [named, List.filter_append, List.map_append, ← named, ← named]

theorem named_eq_nil : named name fields = [] ↔ name ∉ fields.map Prod.fst := by
  rw [named, List.map_eq_nil_iff, List.filter_eq_nil_iff, List.mem_map]
  constructor
  · rintro h ⟨field, hfield, rfl⟩
    exact h field hfield (by simp)
  · intro h field hfield hname
    exact h ⟨field, hfield, of_decide_eq_true hname⟩

theorem named_eq_singleton (hnodup : (fields.map Prod.fst).Nodup) {value : V}
    (hmem : (name, value) ∈ fields) : named name fields = [value] := by
  induction fields with
  | nil => cases hmem
  | cons field rest ih =>
    rw [List.map_cons, List.nodup_cons] at hnodup
    rw [named_cons]
    rcases List.mem_cons.mp hmem with rfl | hrest
    · rw [if_pos rfl, named_eq_nil.mpr hnodup.1]
    · have hne : field.1 ≠ name :=
        fun h => hnodup.1 (h ▸ List.mem_map.mpr ⟨_, hrest, rfl⟩)
      rw [if_neg hne, ih hnodup.2 hrest]

theorem named_editFirst : named name (editFirst name f fields) =
    match named name fields with
    | [] => []
    | value :: rest => f value :: rest := by
  induction fields with
  | nil => rfl
  | cons field rest ih =>
    rw [editFirst, named_cons]
    by_cases h : field.1 = name
    · rw [if_pos h, if_pos h, named_cons, if_pos rfl]
    · rw [if_neg h, if_neg h, named_cons, if_neg h, ih]

theorem named_editFirst_other (h : other ≠ name) :
    named other (editFirst name f fields) = named other fields := by
  induction fields with
  | nil => rfl
  | cons field rest ih =>
    rw [editFirst]
    by_cases hname : field.1 = name
    · have hother : field.1 ≠ other := hname.trans_ne h.symm
      rw [if_pos hname, named_cons, named_cons, if_neg hother, if_neg h.symm]
    · rw [if_neg hname, named_cons, named_cons, ih]

theorem named_removeFirst : named name (removeFirst name fields) = (named name fields).tail := by
  induction fields with
  | nil => rfl
  | cons field rest ih =>
    rw [removeFirst, List.eraseP_cons, named_cons]
    by_cases h : field.1 = name
    · simp [h]
    · rw [decide_eq_false h, cond_false, if_neg h, named_cons, if_neg h]
      exact ih

theorem named_removeFirst_other (h : other ≠ name) :
    named other (removeFirst name fields) = named other fields := by
  induction fields with
  | nil => rfl
  | cons field rest ih =>
    rw [removeFirst, List.eraseP_cons]
    by_cases hname : field.1 = name
    · have hother : field.1 ≠ other := hname.trans_ne h.symm
      rw [decide_eq_true hname, cond_true, named_cons, if_neg hother]
    · rw [decide_eq_false hname, cond_false, named_cons, named_cons, ← removeFirst, ih]

end Named

section LastWins
variable {name : κ} {fields : List (κ × V)}

theorem lastWins_concat (field : κ × V) :
    lastWins (fields ++ [field]) = put Prod.fst field (lastWins fields) := by
  rw [lastWins, List.foldl_append]
  rfl

theorem lastWins_nodup : ((lastWins fields).map Prod.fst).Nodup := by
  induction fields using List.reverseRecOn with
  | nil => exact List.nodup_nil
  | append_singleton fields field ih =>
    rw [lastWins_concat]
    exact nodup_put ih

/-- What is read under a name is the last value given for it. -/
theorem mem_lastWins {value : V} :
    (name, value) ∈ lastWins fields ↔ (named name fields).getLast? = some value := by
  induction fields using List.reverseRecOn with
  | nil => simp [lastWins, named]
  | append_singleton fields field ih =>
    rw [lastWins_concat, mem_put, ih, named_append, named_cons]
    by_cases h : field.1 = name
    · rw [if_pos h]
      simp [named, ← h, Prod.ext_iff, eq_comm]
    · have hne : name ≠ field.1 := Ne.symm h
      rw [if_neg h]
      simp [named, hne, Prod.ext_iff]

end LastWins

end VibeKanban.Lib
