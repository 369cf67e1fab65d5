import Mathlib
import VibeKanban.Lib.Fields
import VibeKanban.Lib.Json

/-! A JSONC file that is merged in place with a new configuration, and what is read from it. -/
namespace VibeKanban.Mcp
open Lib

/-- The syntax tree of a JSONC text, less its comments and blanks. A number is its text, and an object
may name a property more than once. -/
inductive Cst where
  | null
  | bool (b : Bool)
  | number (text : String)
  | string (s : String)
  | array (elements : List Cst)
  | object (properties : List (String × Cst))
  deriving Repr

/-- The texts of floats, and the reader of number texts. -/
structure NumberTexts where
  /-- The digits of the float nearest to an unsigned integer: the shortest ones that name it, filled
  up with zeros. -/
  unsigned : ℕ → ℕ
  real : String → String
  /-- The digits of a float without a fraction; minus zero is `-0` and not among them. -/
  whole : String → Option ℤ
  read : String → Json
  real_whole : ∀ {text n}, whole text = some n → real text = toString n
  /-- The digits of an integer are read as an integer if it fits 64 bits, and else as a float. -/
  read_integer : ∀ {n : ℤ}, -2 ^ 63 ≤ n → n < 2 ^ 64 → read (toString n) = .num n
  read_beyond : ∀ {n : ℤ}, n < -2 ^ 63 ∨ 2 ^ 64 ≤ n → ∀ m, read (toString n) ≠ .num m

section Equality

mutual
/-- `==` of JSON values: objects are compared without regard to the order of their keys. -/
def same : Json → Json → Bool
  | .null, .null => true
  | .bool a, .bool b => a == b
  | .num m, .num n => m == n
  | .real s, .real t => s == t
  | .str s, .str t => s == t
  | .arr l, .arr m => sameItems l m
  | .obj l, .obj m => l.length == m.length && sameFields l m
  | _, _ => false
def sameItems : List Json → List Json → Bool
  | [], [] => true
  | a :: l, b :: m => same a b && sameItems l m
  | _, _ => false
def sameFields : List (String × Json) → List (String × Json) → Bool
  | [], _ => true
  | (key, value) :: rest, m =>
    (match m.find? fun field => field.1 = key with
      | some field => same value field.2
      | none => false) && sameFields rest m
end

mutual
/-- No object names a key twice, as in every value in memory. -/
def Distinct : Json → Prop
  | .arr items => DistinctItems items
  | .obj fields => (fields.map Prod.fst).Nodup ∧ DistinctFields fields
  | _ => True
def DistinctItems : List Json → Prop
  | [] => True
  | value :: rest => Distinct value ∧ DistinctItems rest
def DistinctFields : List (String × Json) → Prop
  | [] => True
  | (_, value) :: rest => Distinct value ∧ DistinctFields rest
end

end Equality

section Update
variable (texts : NumberTexts)

/-- The text of a number: an `i64` in full, any other number as a float. -/
def numberText (n : ℤ) : String :=
  if n < 2 ^ 63 then toString n else toString (texts.unsigned n.toNat : ℤ)

mutual
def serdeJsonToCstInput : Json → Cst
  | .null => .null
  | .bool b => .bool b
  | .num n => .number (numberText texts n)
  | .real text => .number (texts.real text)
  | .str s => .string s
  | .arr items => .array (cstElements items)
  | .obj fields => .object (cstProperties fields)
def cstElements : List Json → List Cst
  | [] => []
  | value :: rest => serdeJsonToCstInput value :: cstElements rest
def cstProperties : List (String × Json) → List (String × Cst)
  | [] => []
  | (key, value) :: rest => (key, serdeJsonToCstInput value) :: cstProperties rest
end

/-- The properties whose key is not in the new object are removed, one for each occurrence. -/
def removeOthers (properties : List (String × Cst)) (newObj : List (String × Json)) :
    List (String × Cst) :=
  (properties.map Prod.fst).foldl
    (fun properties key =>
      if newObj.any fun field => field.1 = key then properties else removeFirst key properties)
    properties

mutual
/-- An object is merged into an object; anything else is replaced. -/
def mergeValue (existing : Cst) : Json → Cst
  | .obj newObj =>
    match existing with
    | .object properties => .object (mergeFields (removeOthers properties newObj) newObj)
    | _ => serdeJsonToCstInput texts (.obj newObj)
  | value => serdeJsonToCstInput texts value
/-- The first property of each key is set, or a property is appended. -/
def mergeFields (properties : List (String × Cst)) : List (String × Json) → List (String × Cst)
  | [] => properties
  | (key, value) :: rest =>
    mergeFields
      (if properties.any fun property => property.1 = key then
        editFirst key (fun existing => mergeValue existing value) properties
      else properties ++ [(key, serdeJsonToCstInput texts value)]) rest
end

def deepMergeCstObject (properties : List (String × Cst)) (newObj : List (String × Json)) :
    List (String × Cst) :=
  mergeFields texts (removeOthers properties newObj) newObj

/-- The tree written for a text; `none` where the text has no value or does not parse. -/
def updateJsoncContent (current : Option Cst) (newConfig : Json) : Cst :=
  let properties :=
    match current with
    | some (.object properties) => properties
    | _ => []
  match newConfig with
  | .obj newObj => .object (deepMergeCstObject texts properties newObj)
  | _ => .object properties

mutual
/-- The value of a tree. The last property of a key wins. -/
def read : Cst → Json
  | .null => .null
  | .bool b => .bool b
  | .number text => texts.read text
  | .string s => .str s
  | .array elements => .arr (readElements elements)
  | .object properties => .obj (lastWins (readProperties properties))
def readElements : List Cst → List Json
  | [] => []
  | element :: rest => read element :: readElements rest
def readProperties : List (String × Cst) → List (String × Json)
  | [] => []
  | (key, value) :: rest => (key, read value) :: readProperties rest
end

end Update

section Exact
variable (texts : NumberTexts)

mutual
/-- The numbers that come back from the text written for them: the integers of an `i64`, a larger one
whose own digits its nearest float shows, and a float that is neither an integer of 64 bits when its
fraction is left out nor read as another float. -/
def ReadsBack : Json → Prop
  | .num n => -2 ^ 63 ≤ n ∧ n < 2 ^ 64 ∧ (2 ^ 63 ≤ n → (texts.unsigned n.toNat : ℤ) = n)
  | .real text => (∀ n, texts.whole text = some n → n < -2 ^ 63 ∨ 2 ^ 64 ≤ n) ∧
      texts.read (texts.real text) = .real text
  | .arr items => ReadsBackItems items
  | .obj fields => ReadsBackFields fields
  | _ => True
def ReadsBackItems : List Json → Prop
  | [] => True
  | value :: rest => ReadsBack value ∧ ReadsBackItems rest
def ReadsBackFields : List (String × Json) → Prop
  | [] => True
  | (_, value) :: rest => ReadsBack value ∧ ReadsBackFields rest
end

mutual
/-- The numbers that are written are read back, and no key that stays is given twice where the merge
goes down, unless its last property happens to have the new value. -/
def ExactValue (existing : Cst) : Json → Prop
  | .obj newObj =>
    match existing with
    | .object properties => ExactFields properties newObj
    | _ => ReadsBack texts (.obj newObj)
  | value => ReadsBack texts value
def ExactFields (properties : List (String × Cst)) : List (String × Json) → Prop
  | [] => True
  | (key, value) :: rest =>
    (match named key properties with
      | [] => ReadsBack texts value
      | [existing] => ExactValue existing value
      | _ :: second :: others => same (read texts (others.getLastD second)) value = true) ∧
    ExactFields properties rest
end

/-- The properties of a key behind the merge. -/
def editOccurrences (value : Json) : List Cst → List Cst
  | [] => [serdeJsonToCstInput texts value]
  | existing :: rest => mergeValue texts existing value :: rest

variable {texts} {properties : List (String × Cst)} {fields : List (String × Json)} {key : String}

theorem named_readProperties :
    named key (readProperties texts properties) = (named key properties).map (read texts) := by
  induction properties with
  | nil => rfl
  | cons property rest ih =>
    rw [readProperties, named_cons, named_cons, ih]
    split_ifs with h
    · rfl
    · rfl

theorem named_cstProperties :
    named key (cstProperties texts fields) =
      (named key fields).map (serdeJsonToCstInput texts) := by
  induction fields with
  | nil => rfl
  | cons field rest ih =>
    rw [cstProperties, named_cons, named_cons, ih]
    split_ifs with h
    · rfl
    · rfl

/-- What the removal of other keys leaves of a key. -/
theorem named_removeOthers : named key (removeOthers properties fields) =
    if key ∈ fields.map Prod.fst then named key properties else [] := by
  have hstep (keys : List String) (left : List (String × Cst)) :
      named key (keys.foldl (fun left removed =>
        if fields.any fun field => field.1 = removed then left else removeFirst removed left) left) =
        if key ∈ fields.map Prod.fst then named key left
        else (named key left).drop (keys.count key) := by
    induction keys generalizing left with
    | nil => simp
    | cons removed rest ih =>
      have hany : (fields.any fun field => field.1 = removed) = true ↔
          removed ∈ fields.map Prod.fst := by
        simp [List.any_eq_true]
      rw [List.foldl_cons, ih, List.count_cons]
      by_cases hkey : removed = key
      · subst hkey
        by_cases hmem : removed ∈ fields.map Prod.fst
        · rw [if_pos hmem, if_pos hmem, if_pos (hany.mpr hmem)]
        · rw [if_neg hmem, if_neg hmem, if_neg fun h => hmem (hany.mp h), named_removeFirst,
            List.drop_tail]
          simp
      · have hsame : named key (if fields.any fun field => field.1 = removed then left
            else removeFirst removed left) = named key left := by
          split_ifs
          · rfl
          · exact named_removeFirst_other (Ne.symm hkey)
        rw [hsame]
        simp [hkey]
  rw [removeOthers, hstep]
  split_ifs
  · rfl
  · have hcount : (properties.map Prod.fst).count key = (named key properties).length := by
      rw [named, List.length_map, List.count_eq_countP, List.countP_map,
        List.countP_eq_length_filter]
      simp [Function.comp_def, beq_eq_decide]
    rw [hcount, List.drop_length]

/-- What the merge makes of a key. -/
theorem named_mergeFields (hnodup : (fields.map Prod.fst).Nodup) :
    (key ∉ fields.map Prod.fst →
      named key (mergeFields texts properties fields) = named key properties) ∧
    ∀ value, (key, value) ∈ fields → named key (mergeFields texts properties fields) =
      editOccurrences texts value (named key properties) := by
  induction fields generalizing properties with
  | nil => exact ⟨fun _ => rfl, fun _ h => absurd h List.not_mem_nil⟩
  | cons field rest ih =>
    obtain ⟨first, newValue⟩ := field
    rw [List.map_cons, List.nodup_cons] at hnodup
    have hany : (properties.any fun property => property.1 = first) = true ↔
        named first properties ≠ [] := by
      rw [Ne, named_eq_nil, not_not]
      simp [List.any_eq_true]
    have hother (h : key ≠ first) : named key (if properties.any fun property => property.1 = first
        then editFirst first (fun existing => mergeValue texts existing newValue) properties
        else properties ++ [(first, serdeJsonToCstInput texts newValue)]) =
          named key properties := by
      split_ifs
      · exact named_editFirst_other h
      · rw [named_append, named_cons, if_neg (Ne.symm h)]
        simp [named]
    have hself : named first (if properties.any fun property => property.1 = first
        then editFirst first (fun existing => mergeValue texts existing newValue) properties
        else properties ++ [(first, serdeJsonToCstInput texts newValue)]) =
          editOccurrences texts newValue (named first properties) := by
      split_ifs with h
      · rw [named_editFirst]
        cases hnamed : named first properties with
        | nil => exact absurd hnamed (hany.mp h)
        | cons existing others => rfl
      · have hnone : named first properties = [] := by
          by_contra hsome
          exact h (hany.mpr hsome)
        rw [named_append, hnone, named_cons, if_pos rfl]
        rfl
    rw [mergeFields]
    obtain ⟨houtside, hinside⟩ := @ih _ hnodup.2
    constructor
    · intro hkey
      rw [List.map_cons, List.mem_cons, not_or] at hkey
      rw [houtside hkey.2, hother hkey.1]
    · intro value hmem
      rcases List.mem_cons.mp hmem with heq | hrest
      · obtain ⟨rfl, rfl⟩ := Prod.mk.inj heq
        rw [houtside hnodup.1, hself]
      · have hne : key ≠ first := by
          rintro rfl
          exact hnodup.1 (List.mem_map.mpr ⟨_, hrest, rfl⟩)
        rw [hinside value hrest, hother hne]

theorem sameFields_iff {l m : List (String × Json)} (hnodup : (m.map Prod.fst).Nodup) :
    sameFields l m = true ↔
      ∀ field ∈ l, ∃ value, (field.1, value) ∈ m ∧ same field.2 value = true := by
  induction l with
  | nil => simp [sameFields]
  | cons field rest ih =>
    obtain ⟨name, value⟩ := field
    rw [sameFields, Bool.and_eq_true, ih, List.forall_mem_cons]
    refine and_congr_left fun _ => ?_
    have hfind (found : String × Json) : (m.find? fun other => other.1 = name) = some found ↔
        found ∈ m ∧ found.1 = name := by
      rw [← find_key_eq_some hnodup]
      simp [beq_eq_decide]
    constructor
    · intro h
      cases hfound : m.find? fun other => other.1 = name with
      | none =>
        rw [hfound] at h
        cases h
      | some found =>
        rw [hfound] at h
        obtain ⟨hmem, hname⟩ := (hfind found).mp hfound
        exact ⟨found.2, hname ▸ hmem, h⟩
    · rintro ⟨other, hmem, hsame⟩
      rw [(hfind (name, other)).mpr ⟨hmem, rfl⟩]
      exact hsame

/-- An object is read as another one when its keys are those of the other and the last property of each
is read as the value there. -/
theorem same_object_iff (hnodup : (fields.map Prod.fst).Nodup)
    (hkeys : ∀ key, named key properties ≠ [] ↔ key ∈ fields.map Prod.fst) :
    same (read texts (.object properties)) (.obj fields) = true ↔
      ∀ field ∈ fields, ∀ last, (named field.1 properties).getLast? = some last →
        same (read texts last) field.2 = true := by
  have hmem (name : String) (value : Json) :
      (name, value) ∈ lastWins (readProperties texts properties) ↔
        ∃ last, (named name properties).getLast? = some last ∧ read texts last = value := by
    rw [mem_lastWins, named_readProperties, List.getLast?_map, Option.map_eq_some_iff]
  have hlength : (lastWins (readProperties texts properties)).length = fields.length := by
    have hperm : ((lastWins (readProperties texts properties)).map Prod.fst).Perm
        (fields.map Prod.fst) := by
      rw [List.perm_ext_iff_of_nodup lastWins_nodup hnodup]
      intro name
      rw [← hkeys, List.mem_map]
      constructor
      · rintro ⟨⟨_, value⟩, hin, rfl⟩ hnil
        obtain ⟨last, hlast, -⟩ := (hmem _ value).mp hin
        rw [hnil] at hlast
        cases hlast
      · intro hne
        obtain ⟨last, hlast⟩ := Option.ne_none_iff_exists'.mp (mt List.getLast?_eq_none_iff.mp hne)
        exact ⟨(name, _), (hmem name _).mpr ⟨last, hlast, rfl⟩, rfl⟩
    simpa using hperm.length_eq
  rw [read, same, hlength, Bool.and_eq_true, sameFields_iff hnodup]
  simp only [beq_self_eq_true, true_and]
  constructor
  · rintro h ⟨name, value⟩ hfield last hlast
    obtain ⟨other, hother, hsame⟩ := h (name, read texts last) ((hmem _ _).mpr ⟨last, hlast, rfl⟩)
    have heq : (name, other) = (name, value) :=
      List.inj_on_of_nodup_map hnodup hother hfield rfl
    rw [(Prod.mk.inj heq).2] at hsame
    exact hsame
  · rintro h ⟨name, value⟩ hin
    obtain ⟨last, hlast, rfl⟩ := (hmem _ _).mp hin
    have hne : named name properties ≠ [] := by
      intro hnil
      rw [hnil] at hlast
      cases hlast
    obtain ⟨⟨_, other⟩, hother, rfl⟩ := List.mem_map.mp ((hkeys name).mp hne)
    exact ⟨other, hother, h _ hother last hlast⟩

theorem map_cstProperties : (cstProperties texts fields).map Prod.fst = fields.map Prod.fst := by
  induction fields with
  | nil => rfl
  | cons field rest ih =>
    rw [cstProperties, List.map_cons, List.map_cons, ih]

theorem same_num {value : Json} {n : ℤ} : same value (.num n) = true ↔ value = .num n := by
  cases value <;> simp [same]

theorem same_real {value : Json} {text : String} :
    same value (.real text) = true ↔ value = .real text := by
  cases value <;> simp [same]

theorem read_num {m n : ℤ} :
    texts.read (toString m) = .num n ↔ m = n ∧ -2 ^ 63 ≤ n ∧ n < 2 ^ 64 := by
  by_cases hfits : -2 ^ 63 ≤ m ∧ m < 2 ^ 64
  · rw [texts.read_integer hfits.1 hfits.2, Json.num.injEq]
    constructor
    · rintro rfl
      exact ⟨rfl, hfits⟩
    · exact fun h => h.1
  · have hbeyond : m < -2 ^ 63 ∨ 2 ^ 64 ≤ m := by omega
    refine iff_of_false (texts.read_beyond hbeyond n) ?_
    rintro ⟨rfl, hn⟩
    exact hfits hn

theorem read_numberText {n : ℤ} :
    texts.read (numberText texts n) = .num n ↔ ReadsBack texts (.num n) := by
  unfold numberText ReadsBack
  split_ifs with hsigned
  · rw [read_num]
    constructor
    · rintro ⟨_, hlow, hhigh⟩
      exact ⟨hlow, hhigh, fun h => absurd hsigned (by omega)⟩
    · rintro ⟨hlow, hhigh, _⟩
      exact ⟨rfl, hlow, hhigh⟩
  · rw [read_num]
    constructor
    · rintro ⟨hdigits, hlow, hhigh⟩
      exact ⟨hlow, hhigh, fun _ => hdigits⟩
    · rintro ⟨hlow, hhigh, hdigits⟩
      exact ⟨hdigits (by omega), hlow, hhigh⟩

/-- A float whose digits are an integer of 64 bits is read as that integer. -/
theorem read_real {text : String} :
    texts.read (texts.real text) = .real text ↔ ReadsBack texts (.real text) := by
  unfold ReadsBack
  refine (and_iff_right_of_imp ?_).symm
  intro hread n hwhole
  rw [texts.real_whole hwhole] at hread
  by_contra hfits
  rw [texts.read_integer (by omega) (by omega)] at hread
  cases hread

mutual
/-- A value that is written is read back exactly when its numbers are. -/
theorem same_written : ∀ value, Distinct value →
    (same (read texts (serdeJsonToCstInput texts value)) value = true ↔ ReadsBack texts value)
  | .null, _ => by simp [serdeJsonToCstInput, read, same, ReadsBack]
  | .bool b, _ => by simp [serdeJsonToCstInput, read, same, ReadsBack]
  | .str s, _ => by simp [serdeJsonToCstInput, read, same, ReadsBack]
  | .num n, _ => by
    rw [serdeJsonToCstInput, read, same_num, read_numberText]
  | .real text, _ => by
    rw [serdeJsonToCstInput, read, same_real, read_real]
  | .arr items, h => by
    rw [serdeJsonToCstInput, read, same, ReadsBack]
    exact same_writtenItems items h
  | .obj fields, h => by
    rw [serdeJsonToCstInput, ReadsBack, same_object_iff h.1, ← same_writtenFields fields h.2]
    · refine forall₂_congr fun field hfield => ?_
      rw [named_cstProperties, named_eq_singleton h.1 hfield]
      simp
    · intro key
      rw [Ne, named_eq_nil, not_not, map_cstProperties]
theorem same_writtenItems : ∀ items, DistinctItems items →
    (sameItems (readElements texts (cstElements texts items)) items = true ↔
      ReadsBackItems texts items)
  | [], _ => by simp [cstElements, readElements, sameItems, ReadsBackItems]
  | value :: rest, h => by
    rw [cstElements, readElements, sameItems, Bool.and_eq_true, ReadsBackItems,
      same_written value h.1, same_writtenItems rest h.2]
theorem same_writtenFields : ∀ fields, DistinctFields fields →
    ((∀ field ∈ fields,
      same (read texts (serdeJsonToCstInput texts field.2)) field.2 = true) ↔
        ReadsBackFields texts fields)
  | [], _ => by simp [ReadsBackFields]
  | (_, value) :: rest, h => by
    rw [List.forall_mem_cons, ReadsBackFields, same_written value h.1,
      same_writtenFields rest h.2]
end

/-- The properties of an object behind a merge. -/
theorem same_deepMerge_iff (hnodup : (fields.map Prod.fst).Nodup) :
    same (read texts (.object (deepMergeCstObject texts properties fields))) (.obj fields) = true ↔
      ∀ field ∈ fields, ∀ last,
        (editOccurrences texts field.2 (named field.1 properties)).getLast? = some last →
          same (read texts last) field.2 = true := by
  have hinside (field : String × Json) (hfield : field ∈ fields) :
      named field.1 (deepMergeCstObject texts properties fields) =
        editOccurrences texts field.2 (named field.1 properties) := by
    have hkey : field.1 ∈ fields.map Prod.fst := List.mem_map.mpr ⟨field, hfield, rfl⟩
    rw [deepMergeCstObject, (named_mergeFields hnodup).2 field.2 hfield, named_removeOthers,
      if_pos hkey]
  rw [same_object_iff hnodup]
  · exact forall₂_congr fun field hfield => by rw [hinside field hfield]
  · intro key
    by_cases hkey : key ∈ fields.map Prod.fst
    · obtain ⟨field, hfield, rfl⟩ := List.mem_map.mp hkey
      rw [hinside field hfield]
      cases named field.1 properties with
      | nil => simp [editOccurrences, hkey]
      | cons _ _ => simp [editOccurrences, hkey]
    · rw [deepMergeCstObject, (named_mergeFields hnodup).1 hkey, named_removeOthers, if_neg hkey]
      simp [hkey]

mutual
theorem same_mergeValue : ∀ value, Distinct value → ∀ existing,
    (same (read texts (mergeValue texts existing value)) value = true ↔
      ExactValue texts existing value)
  | .obj newObj, h, existing => by
    cases existing with
    | object properties =>
      rw [mergeValue, ← deepMergeCstObject, same_deepMerge_iff h.1, ExactValue]
      exact exactFields_iff newObj h.2 properties
    | null | bool | number | string | array =>
      rw [mergeValue, ExactValue]
      · exact same_written (.obj newObj) h
      · simp
      · simp
  | .null, h, _ => same_written .null h
  | .bool _, h, _ => same_written (.bool _) h
  | .num _, h, _ => same_written (.num _) h
  | .real _, h, _ => same_written (.real _) h
  | .str _, h, _ => same_written (.str _) h
  | .arr _, h, _ => same_written (.arr _) h
theorem exactFields_iff : ∀ fields, DistinctFields fields → ∀ properties,
    ((∀ field ∈ fields, ∀ last,
      (editOccurrences texts field.2 (named field.1 properties)).getLast? = some last →
        same (read texts last) field.2 = true) ↔ ExactFields texts properties fields)
  | [], _, _ => by simp [ExactFields]
  | (key, value) :: rest, h, properties => by
    rw [List.forall_mem_cons, ExactFields, exactFields_iff rest h.2 properties]
    refine and_congr_left fun _ => ?_
    match named key properties with
    | [] => simpa [editOccurrences] using same_written value h.1
    | [existing] => simpa [editOccurrences] using same_mergeValue value h.1 existing
    | _ :: second :: others => simp [editOccurrences, List.getLast?_cons]
end

/-- Reading the merged text gives exactly the new configuration when, and only when, its numbers are read
back and no key of it is given twice where the merge goes down, a last property with the new value
apart. -/
theorem updateJsoncContent_exact (texts : NumberTexts) (properties : List (String × Cst))
    (newObj : List (String × Json)) (hdistinct : Distinct (.obj newObj)) :
    same (read texts (updateJsoncContent texts (some (.object properties)) (.obj newObj)))
        (.obj newObj) = true ↔ ExactFields texts properties newObj := by
  rw [updateJsoncContent, same_deepMerge_iff hdistinct.1]
  exact exactFields_iff newObj hdistinct.2 properties

end Exact

/-- Integers by their digits; any other text is a float as it stands. -/
def readDecimal (text : String) : Json :=
  match text.toInt? with
  | some n => if -2 ^ 63 ≤ n ∧ n < 2 ^ 64 then .num n else .real text
  | none => .real text

theorem readDecimal_toString (n : ℤ) : readDecimal (toString n) =
    if -2 ^ 63 ≤ n ∧ n < 2 ^ 64 then .num n else .real (toString n) := by
  unfold readDecimal
  rw [Int.toString_eq_repr, Int.toInt?_repr]

theorem readDecimal_integer {n : ℤ} (hlow : -2 ^ 63 ≤ n) (hhigh : n < 2 ^ 64) :
    readDecimal (toString n) = .num n := by
  rw [readDecimal_toString, if_pos ⟨hlow, hhigh⟩]

theorem readDecimal_beyond {n : ℤ} (h : n < -2 ^ 63 ∨ 2 ^ 64 ≤ n) (m : ℤ) :
    readDecimal (toString n) ≠ .num m := by
  rw [readDecimal_toString, if_neg (by omega)]
  intro heq
  cases heq

theorem readDecimal_fraction {text : String} (h : '.' ∈ text.toList) :
    readDecimal text = .real text := by
  have hnat (t : String) (hdot : '.' ∈ t.toList) : ¬ t.isNat = true := by
    rw [String.isNat_iff]
    rintro ⟨_, hdigits, _⟩
    exact absurd (hdigits '.' hdot) (by decide)
  have hinteger : text.toInt? = none := by
    rw [String.toInt?_eq_none_iff, Bool.eq_false_iff, Ne, String.isInt_iff]
    rintro (hplain | ⟨t, rfl, hplain⟩)
    · exact hnat text h hplain
    · refine hnat t ?_ hplain
      rw [String.toList_append] at h
      obtain h | h := List.mem_append.mp h
      · exact absurd h (by decide)
      · exact h
  unfold readDecimal
  rw [hinteger]

/-- A float beyond an `i64` shows thousands. -/
def decimalTexts : NumberTexts where
  unsigned n := n / 1000 * 1000
  real := id
  whole _ := none
  read := readDecimal
  real_whole h := (Option.some_ne_none _ h.symm).elim
  read_integer := readDecimal_integer
  read_beyond := readDecimal_beyond

/-- A nested object of which one property goes, one is replaced and three are appended. -/
def oldServer : List (String × Cst) :=
  [("mcp", .object [("a", .string "x"), ("b", .null)]), ("old", .bool true)]

def newServer : List (String × Json) :=
  [("mcp", .obj [("a", .str "y"), ("port", .num 80), ("rate", .real "1.5"),
    ("id", .num 9223372036854776000)])]

theorem updateJsoncContent_exact_server :
    same (read decimalTexts (updateJsoncContent decimalTexts (some (.object oldServer))
      (.obj newServer))) (.obj newServer) = true := by
  apply (updateJsoncContent_exact _ _ _ ?_).mpr
  · have hfloat : decimalTexts.read (decimalTexts.real "1.5") = .real "1.5" :=
      readDecimal_fraction (by decide +kernel)
    have hwhole : decimalTexts.whole "1.5" = none := rfl
    have hdigits : decimalTexts.unsigned 9223372036854776000 = 9223372036854776000 := rfl
    simp [oldServer, newServer, ExactFields, ExactValue, ReadsBack, named, hfloat, hwhole, hdigits]
  · simp [newServer, Distinct, DistinctFields]

/-- A key given twice keeps its second value. -/
theorem second_property_stays : ¬ ∀ (texts : NumberTexts) (properties : List (String × Cst))
    (newObj : List (String × Json)), Distinct (.obj newObj) →
    same (read texts (updateJsoncContent texts (some (.object properties)) (.obj newObj)))
      (.obj newObj) = true := by
  intro h
  have hread := h decimalTexts [("a", .string "x"), ("a", .string "y")] [("a", .str "z")]
    (by simp [Distinct, DistinctFields])
  revert hread
  decide

end VibeKanban.Mcp
