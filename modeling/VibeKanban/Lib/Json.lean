import Mathlib.Algebra.Order.Ring.Nat
import Mathlib.Algebra.Ring.Int.Defs
import Mathlib.Data.List.Nodup

/-! JSON values and the accessors of a dynamically typed JSON library. -/
namespace VibeKanban.Lib

/-- A JSON value. Objects keep their keys in insertion order; `real` is a number that is not
an integer, by its text. -/
inductive Json where
  | null
  | bool (b : Bool)
  | num (n : ℤ)
  | real (text : String)
  | str (s : String)
  | arr (items : List Json)
  | obj (fields : List (String × Json))
  deriving Repr

namespace Json

mutual
/-- Equality of values, as a test. -/
def beq : Json → Json → Bool
  | null, null => true
  | bool a, bool b => a == b
  | num m, num n => m == n
  | real s, real t => s == t
  | str s, str t => s == t
  | arr l, arr m => beqItems l m
  | obj l, obj m => beqFields l m
  | _, _ => false
def beqItems : List Json → List Json → Bool
  | [], [] => true
  | a :: l, b :: m => beq a b && beqItems l m
  | _, _ => false
def beqFields : List (String × Json) → List (String × Json) → Bool
  | [], [] => true
  | (s, a) :: l, (t, b) :: m => s == t && beq a b && beqFields l m
  | _, _ => false
end

mutual
theorem beq_iff : ∀ a b : Json, beq a b = true ↔ a = b
  | null, b => by cases b <;> simp [beq]
  | bool _, b => by cases b <;> simp [beq]
  | num _, b => by cases b <;> simp [beq]
  | real _, b => by cases b <;> simp [beq]
  | str _, b => by cases b <;> simp [beq]
  | arr l, b => by
    cases b with
    | arr m => simpa [beq] using beqItems_iff l m
    | _ => simp [beq]
  | obj l, b => by
    cases b with
    | obj m => simpa [beq] using beqFields_iff l m
    | _ => simp [beq]
theorem beqItems_iff : ∀ l m : List Json, beqItems l m = true ↔ l = m
  | [], m => by cases m <;> simp [beqItems]
  | a :: l, m => by
    cases m with
    | nil => simp [beqItems]
    | cons b m => simp [beqItems, beq_iff a b, beqItems_iff l m]
theorem beqFields_iff : ∀ l m : List (String × Json), beqFields l m = true ↔ l = m
  | [], m => by cases m <;> simp [beqFields]
  | (s, a) :: l, m => by
    cases m with
    | nil => simp [beqFields]
    | cons b m =>
      obtain ⟨t, b⟩ := b
      simp [beqFields, beq_iff a b, beqFields_iff l m]
end

instance : DecidableEq Json := fun a b => decidable_of_iff _ (beq_iff a b)

/-- The member of an object; `none` for a missing key and for anything that is not an object. -/
def get? (j : Json) (key : String) : Option Json :=
  match j with
  | obj fields => fields.lookup key
  | _ => none

def asStr? : Json → Option String
  | str s => some s
  | _ => none

def asArray? : Json → Option (List Json)
  | arr items => some items
  | _ => none

def isNull : Json → Bool
  | null => true
  | _ => false

/-- A list of strings as a JSON array. -/
def strings (l : List String) : Json := arr (l.map str)

/-- An optional string, `null` when absent. -/
def optStr : Option String → Json
  | none => null
  | some s => str s

mutual
/-- How many levels of arrays and objects lie inside each other. -/
def nesting : Json → ℕ
  | null => 0
  | bool _ => 0
  | num _ => 0
  | real _ => 0
  | str _ => 0
  | arr items => nestingItems items + 1
  | obj fields => nestingFields fields + 1
def nestingItems : List Json → ℕ
  | [] => 0
  | j :: rest => max (nesting j) (nestingItems rest)
def nestingFields : List (String × Json) → ℕ
  | [] => 0
  | (_, j) :: rest => max (nesting j) (nestingFields rest)
end

mutual
/-- The values a reader with `depth` levels of nesting left accepts as written: machine
integers and objects without a repeated key. -/
def Valid (depth : ℕ) : Json → Prop
  | null => True
  | bool _ => True
  | num n => -2 ^ 63 ≤ n ∧ n < 2 ^ 64
  | real _ => False
  | str _ => True
  | arr items => 0 < depth ∧ ValidItems (depth - 1) items
  | obj fields => 0 < depth ∧ (fields.map Prod.fst).Nodup ∧ ValidFields (depth - 1) fields
def ValidItems (depth : ℕ) : List Json → Prop
  | [] => True
  | j :: rest => Valid depth j ∧ ValidItems depth rest
def ValidFields (depth : ℕ) : List (String × Json) → Prop
  | [] => True
  | (_, j) :: rest => Valid depth j ∧ ValidFields depth rest
end

theorem validItems_strings (depth : ℕ) (l : List String) : ValidItems depth (l.map str) := by
  induction l with
  | nil => simp [ValidItems]
  | cons s l ih => simp [ValidItems, Valid, ih]

theorem valid_strings {depth : ℕ} (hd : 0 < depth) (l : List String) :
    Valid depth (strings l) := by
  simp [strings, Valid, hd, validItems_strings]

theorem valid_optStr (depth : ℕ) (s : Option String) : Valid depth (optStr s) := by
  cases s <;> simp [optStr, Valid]

end Json

/-- A text codec that reads back every value it wrote, up to the usual nesting limit. -/
structure JsonCodec where
  fromStr : String → Option Json
  toString : Json → String
  fromStr_toString : ∀ j, j.Valid 127 → fromStr (toString j) = some j

end VibeKanban.Lib
