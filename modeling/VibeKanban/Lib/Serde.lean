import Mathlib.Data.List.Nodup
import VibeKanban.Lib.Json

/-! Derived JSON forms: records by name or position, optional members, enumerations by name, and
which of them read back. -/
namespace VibeKanban.Lib

/-- A type with a JSON form that reads back. -/
structure Codec (α : Type) where
  encode : α → Json
  decode : Json → Option α
  decode_encode : ∀ a, decode (encode a) = some a

namespace Codec
variable {α : Type}

/-- No value is written as `null`. -/
def NonNull (c : Codec α) : Prop := ∀ a, c.encode a ≠ .null

def string : Codec String where
  encode := .str
  decode := Json.asStr?
  decode_encode _ := rfl

def bool : Codec Bool where
  encode := .bool
  decode
    | .bool b => some b
    | _ => none
  decode_encode _ := rfl

def value : Codec Json where
  encode j := j
  decode := some
  decode_encode _ := rfl

/-- Machine integers are numbers in their range. -/
def integer (low high : ℤ) (toInt : α → ℤ) (ofInt : ℤ → α)
    (h : ∀ a, low ≤ toInt a ∧ toInt a ≤ high ∧ ofInt (toInt a) = a) : Codec α where
  encode a := .num (toInt a)
  decode
    | .num n => if low ≤ n ∧ n ≤ high then some (ofInt n) else none
    | _ => none
  decode_encode a := by
    obtain ⟨hlow, hhigh, hback⟩ := h a
    simp [hlow, hhigh, hback]

def uint16 : Codec UInt16 :=
  integer 0 (2 ^ 16 - 1) (·.toNat) (fun n => UInt16.ofNat n.toNat) fun a => by
    have hlt := a.toNat_lt
    exact ⟨by omega, by omega, by simp⟩

def uint64 : Codec UInt64 :=
  integer 0 (2 ^ 64 - 1) (·.toNat) (fun n => UInt64.ofNat n.toNat) fun a => by
    have hlt := a.toNat_lt
    exact ⟨by omega, by omega, by simp⟩

def int32 : Codec Int32 :=
  integer (-2 ^ 31) (2 ^ 31 - 1) (·.toInt) Int32.ofInt fun a =>
    ⟨a.le_toInt, Int.le_sub_one_of_lt a.toInt_lt, Int32.ofInt_toInt a⟩

theorem string_nonNull : string.NonNull := fun _ h => by cases h

theorem integer_nonNull {low high : ℤ} {toInt : α → ℤ} {ofInt : ℤ → α}
    {h : ∀ a, low ≤ toInt a ∧ toInt a ≤ high ∧ ofInt (toInt a) = a} :
    (integer low high toInt ofInt h).NonNull := fun _ h => by cases h

def decodeAll (c : Codec α) : List Json → Option (List α)
  | [] => some []
  | j :: rest => do return (← c.decode j) :: (← decodeAll c rest)

def list (c : Codec α) : Codec (List α) where
  encode l := .arr (l.map c.encode)
  decode j := j.asArray?.bind (decodeAll c)
  decode_encode l := by
    show decodeAll c (l.map c.encode) = some l
    induction l with
    | nil => rfl
    | cons a l ih => simp [decodeAll, c.decode_encode, ih]

/-- The name of a variant: a string, or the only key of an object that holds nothing. -/
def tag? : Json → Option String
  | .str s => some s
  | .obj [(s, .null)] => some s
  | _ => none

/-- An enumeration is written by the names of its variants. -/
def enumeration (all : List α) (name : α → String)
    (h : ∀ a, all.find? (fun b => name b = name a) = some a) : Codec α where
  encode a := .str (name a)
  decode j := (tag? j).bind fun s => all.find? (fun a => name a = s)
  decode_encode a := h a

theorem enumeration_nonNull {all : List α} {name : α → String}
    {h : ∀ a, all.find? (fun b => name b = name a) = some a} :
    (enumeration all name h).NonNull := fun _ h => by cases h

end Codec

/-- A member of an object, unless it is left out. -/
def present (member : String × Option Json) : Option (String × Json) :=
  member.2.map fun value => (member.1, value)

/-- An object with the members that are present. -/
def record (members : List (String × Option Json)) : Json := .obj (members.filterMap present)

/-- The members of a record by their names, or of an array by their positions. -/
def members (keys : List String) : Json → Option (List (Option Json))
  | .obj fields => some (keys.map fun key => fields.lookup key)
  | .arr items =>
    if items.length ≤ keys.length then
      some (items.map some ++ List.replicate (keys.length - items.length) none)
    else none
  | _ => none

theorem lookup_present_of_not_mem {l : List (String × Option Json)} {key : String}
    (h : key ∉ l.map Prod.fst) : (l.filterMap present).lookup key = none := by
  rw [List.lookup_eq_none_iff]
  intro p hp
  obtain ⟨member, hmem, hsome⟩ := List.mem_filterMap.mp hp
  obtain ⟨v, _, rfl⟩ := Option.map_eq_some_iff.mp hsome
  have hne : key ≠ member.1 := fun heq => h (heq ▸ List.mem_map_of_mem hmem)
  simpa using hne

theorem lookup_present {l : List (String × Option Json)} (h : (l.map Prod.fst).Nodup)
    {member : String × Option Json} (hmem : member ∈ l) :
    (l.filterMap present).lookup member.1 = member.2 := by
  induction l with
  | nil => cases hmem
  | cons head rest ih =>
    rw [List.map_cons, List.nodup_cons] at h
    rcases List.mem_cons.mp hmem with rfl | hrest
    · cases hvalue : member.2 with
      | none =>
        rw [List.filterMap_cons_none (by simp [present, hvalue])]
        exact lookup_present_of_not_mem h.1
      | some v =>
        rw [List.filterMap_cons_some (b := (member.1, v)) (by simp [present, hvalue])]
        simp
    · have hne : member.1 ≠ head.1 := fun heq => h.1 (heq ▸ List.mem_map_of_mem hrest)
      cases hvalue : head.2 with
      | none =>
        rw [List.filterMap_cons_none (by simp [present, hvalue])]
        exact ih h.2 hrest
      | some v =>
        rw [List.filterMap_cons_some (b := (head.1, v)) (by simp [present, hvalue]),
          List.lookup_cons, beq_eq_false_iff_ne.mpr hne]
        exact ih h.2 hrest

/-- Read a record from its members. -/
def readRecord {α : Type} (j : Json) (keys : List String) (read : List (Option Json) → Option α) :
    Option α := (members keys j).bind read

/-- The members of a record read back. -/
theorem readRecord_record {α : Type} {read : List (Option Json) → Option α}
    {l : List (String × Option Json)} (h : (l.map Prod.fst).Nodup) :
    readRecord (record l) (l.map Prod.fst) read = read (l.map Prod.snd) := by
  have hmembers : members (l.map Prod.fst) (record l) = some (l.map Prod.snd) := by
    rw [record, members, List.map_map]
    congr 1
    exact List.map_congr_left fun p hp => lookup_present h hp
  rw [readRecord, hmembers, Option.bind_some]

def required {α : Type} (c : Codec α) (member : Option Json) : Option α := member.bind c.decode

/-- An optional member may be missing or `null`. -/
def optional {α : Type} (c : Codec α) : Option Json → Option (Option α)
  | none | some .null => some none
  | some j => (c.decode j).map some

@[simp] theorem required_encode {α : Type} (c : Codec α) (a : α) :
    required c (some (c.encode a)) = some a := c.decode_encode a

theorem optional_encode {α : Type} {c : Codec α} {a : Option α}
    (h : ∀ v, a = some v → c.encode v ≠ .null) : optional c (a.map c.encode) = some a := by
  cases a with
  | none => rfl
  | some v =>
    have hv := h v rfl
    rw [Option.map_some, optional.eq_def]
    split
    · rename_i heq
      cases heq
    · rename_i heq
      exact absurd (Option.some.inj heq) hv
    · rename_i heq
      rw [← Option.some.inj heq, c.decode_encode]
      rfl

theorem optional_nonNull {α : Type} {c : Codec α} (h : c.NonNull) (a : Option α) :
    optional c (a.map c.encode) = some a := optional_encode fun v _ => h v

end VibeKanban.Lib
