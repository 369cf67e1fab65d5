import Mathlib.Data.Nat.Digits.Lemmas
import VibeKanban.Lib.Json

/-! Compact JSON text: a writer, a reader with a nesting limit, and their round trip. -/
namespace VibeKanban.Lib.JsonText

def hexDigit (n : ℕ) : Char := "0123456789abcdef".toList.getD n '0'

def hexValue? (c : Char) : Option ℕ :=
  if '0' ≤ c ∧ c ≤ '9' then some (c.toNat - 48)
  else if 'a' ≤ c ∧ c ≤ 'f' then some (c.toNat - 87)
  else if 'A' ≤ c ∧ c ≤ 'F' then some (c.toNat - 55)
  else none

/-- The short escapes, as pairs of the character and the letter after the backslash. -/
def shortEscapes : List (Char × Char) :=
  [('"', '"'), ('\\', '\\'), ('\n', 'n'), ('\r', 'r'), ('\t', 't'), ('\x08', 'b'), ('\x0c', 'f')]

def escapeChar (c : Char) : List Char :=
  match shortEscapes.lookup c with
  | some letter => ['\\', letter]
  | none =>
    if c.toNat < 0x20 then
      ['\\', 'u', '0', '0', hexDigit (c.toNat / 16), hexDigit (c.toNat % 16)]
    else [c]

def printStr (s : String) : List Char := '"' :: (s.toList.flatMap escapeChar ++ ['"'])

def digitChar (d : ℕ) : Char := Char.ofNat (48 + d)

def printNat (n : ℕ) : List Char :=
  if n = 0 then ['0'] else (Nat.digits 10 n).reverse.map digitChar

def printInt : ℤ → List Char
  | .ofNat n => printNat n
  | .negSucc n => '-' :: printNat (n + 1)

mutual
def print : Json → List Char
  | .null => ['n', 'u', 'l', 'l']
  | .bool true => ['t', 'r', 'u', 'e']
  | .bool false => ['f', 'a', 'l', 's', 'e']
  | .num n => printInt n
  | .real text => text.toList
  | .str s => printStr s
  | .arr [] => ['[', ']']
  | .arr (j :: rest) => '[' :: (print j ++ printItems rest)
  | .obj [] => ['\x7b', '\x7d']
  | .obj ((k, j) :: rest) => '\x7b' :: (printStr k ++ ':' :: (print j ++ printFields rest))
def printItems : List Json → List Char
  | [] => [']']
  | j :: rest => ',' :: (print j ++ printItems rest)
def printFields : List (String × Json) → List Char
  | [] => ['\x7d']
  | (k, j) :: rest => ',' :: (printStr k ++ ':' :: (print j ++ printFields rest))
end

def isSpace (c : Char) : Bool := c == ' ' || c == '\n' || c == '\r' || c == '\t'

def skipSpace (s : List Char) : List Char := s.dropWhile isSpace

def hex4 : List Char → Option (ℕ × List Char)
  | a :: b :: c :: d :: rest => do
    let a ← hexValue? a
    let b ← hexValue? b
    let c ← hexValue? c
    let d ← hexValue? d
    return (((a * 16 + b) * 16 + c) * 16 + d, rest)
  | _ => none

/-- The character written by an escape, after its backslash. Surrogates come in pairs. -/
def unescape : List Char → Option (Char × List Char)
  | 'u' :: rest => do
    let (n, rest) ← hex4 rest
    if 0xDC00 ≤ n ∧ n ≤ 0xDFFF then none
    else if 0xD800 ≤ n ∧ n ≤ 0xDBFF then
      match rest with
      | '\\' :: 'u' :: rest => do
        let (m, rest) ← hex4 rest
        if 0xDC00 ≤ m ∧ m ≤ 0xDFFF then
          return (Char.ofNat (0x10000 + (n - 0xD800) * 1024 + (m - 0xDC00)), rest)
        else none
      | _ => none
    else return (Char.ofNat n, rest)
  | '/' :: rest => some ('/', rest)
  | letter :: rest => do
    let (c, _) ← shortEscapes.find? fun e => e.2 == letter
    return (c, rest)
  | [] => none

def readStr : ℕ → List Char → Option (List Char × List Char)
  | 0, _ => none
  | _, [] => none
  | fuel + 1, c :: rest =>
    if c = '"' then some ([], rest)
    else if c = '\\' then do
      let (c, rest) ← unescape rest
      let (s, rest) ← readStr fuel rest
      return (c :: s, rest)
    else if c.toNat < 0x20 then none
    else do
      let (s, rest) ← readStr fuel rest
      return (c :: s, rest)

def isDigit (c : Char) : Bool := '0' ≤ c && c ≤ '9'

def digitsValue (ds : List Char) : ℕ := ds.foldl (fun n d => n * 10 + (d.toNat - 48)) 0

/-- A fraction or an exponent, at least one digit each, as the text that was read. -/
def readTail (lead : List Char) (s : List Char) : Option (List Char × List Char) :=
  match s.span isDigit with
  | ([], _) => none
  | (ds, rest) => some (lead ++ ds, rest)

def readFraction : List Char → Option (List Char × List Char)
  | '.' :: rest => readTail ['.'] rest
  | s => some ([], s)

def readExponent : List Char → Option (List Char × List Char)
  | 'e' :: '-' :: rest => readTail ['e', '-'] rest
  | 'e' :: '+' :: rest => readTail ['e', '+'] rest
  | 'e' :: rest => readTail ['e'] rest
  | 'E' :: '-' :: rest => readTail ['E', '-'] rest
  | 'E' :: '+' :: rest => readTail ['E', '+'] rest
  | 'E' :: rest => readTail ['E'] rest
  | s => some ([], s)

/-- An integer when it fits the machine types, and any other number by its text. -/
def readNumber (negative : Bool) (s : List Char) : Option (Json × List Char) :=
  match s.span isDigit with
  | ([], _) => none
  | ('0' :: _ :: _, _) => none
  | (ds, rest) => do
    let (fraction, rest) ← readFraction rest
    let (exponent, rest) ← readExponent rest
    let value : ℤ := if negative then -(digitsValue ds : ℤ) else digitsValue ds
    let fits := decide (-2 ^ 63 ≤ value ∧ value < 2 ^ 64) && !(negative && value == 0)
    if fraction.isEmpty && exponent.isEmpty && fits then return (.num value, rest)
    else return (.real (String.ofList ((if negative then ['-'] else []) ++ ds ++ fraction ++
      exponent)), rest)

/-- A repeated key keeps its first position and its last value. -/
def insertField (fields : List (String × Json)) (key : String) (value : Json) :
    List (String × Json) :=
  if (fields.map Prod.fst).contains key then
    fields.map fun f => if f.1 = key then (key, value) else f
  else fields ++ [(key, value)]

mutual
def readValue : ℕ → ℕ → List Char → Option (Json × List Char)
  | 0, _, _ => none
  | fuel + 1, depth, s =>
    match skipSpace s with
    | 'n' :: 'u' :: 'l' :: 'l' :: rest => some (.null, rest)
    | 't' :: 'r' :: 'u' :: 'e' :: rest => some (.bool true, rest)
    | 'f' :: 'a' :: 'l' :: 's' :: 'e' :: rest => some (.bool false, rest)
    | '"' :: rest => do
      let (s, rest) ← readStr (rest.length + 1) rest
      return (.str (String.ofList s), rest)
    | '[' :: rest =>
      if depth = 0 then none
      else match skipSpace rest with
        | ']' :: rest => some (.arr [], rest)
        | rest => do
          let (j, rest) ← readValue fuel (depth - 1) rest
          let (items, rest) ← readItems fuel (depth - 1) rest
          return (.arr (j :: items), rest)
    | '\x7b' :: rest =>
      if depth = 0 then none
      else match skipSpace rest with
        | '\x7d' :: rest => some (.obj [], rest)
        | rest => do
          let (field, rest) ← readField fuel (depth - 1) rest
          let (fields, rest) ← readFields fuel (depth - 1) rest
          return (.obj ((field :: fields).foldl (fun acc f => insertField acc f.1 f.2) []), rest)
    | '-' :: rest => readNumber true rest
    | rest => readNumber false rest
def readItems : ℕ → ℕ → List Char → Option (List Json × List Char)
  | 0, _, _ => none
  | fuel + 1, depth, s =>
    match skipSpace s with
    | ']' :: rest => some ([], rest)
    | ',' :: rest => do
      let (j, rest) ← readValue fuel depth rest
      let (items, rest) ← readItems fuel depth rest
      return (j :: items, rest)
    | _ => none
def readField : ℕ → ℕ → List Char → Option ((String × Json) × List Char)
  | 0, _, _ => none
  | fuel + 1, depth, s =>
    match skipSpace s with
    | '"' :: rest => do
      let (key, rest) ← readStr (rest.length + 1) rest
      match skipSpace rest with
      | ':' :: rest => do
        let (j, rest) ← readValue fuel depth rest
        return ((String.ofList key, j), rest)
      | _ => none
    | _ => none
def readFields : ℕ → ℕ → List Char → Option (List (String × Json) × List Char)
  | 0, _, _ => none
  | fuel + 1, depth, s =>
    match skipSpace s with
    | '\x7d' :: rest => some ([], rest)
    | ',' :: rest => do
      let (field, rest) ← readField fuel depth rest
      let (fields, rest) ← readFields fuel depth rest
      return (field :: fields, rest)
    | _ => none
end

def toText (j : Json) : String := String.ofList (print j)

/-- One value and nothing but white space around it. -/
def fromText (text : String) : Option Json := do
  let (j, rest) ← readValue (text.toList.length + 1) 127 text.toList
  if (skipSpace rest).isEmpty then return j else none

section RoundTrip

/-- What may follow a value inside a text. -/
def Ends : List Char → Prop
  | [] => True
  | c :: _ => c = ',' ∨ c = ']' ∨ c = '\x7d'

theorem digitChar_isDigit {d : ℕ} (h : d < 10) : isDigit (digitChar d) = true := by
  interval_cases d <;> decide

theorem digitChar_toNat {d : ℕ} (h : d < 10) : (digitChar d).toNat - 48 = d := by
  interval_cases d <;> decide

theorem printNat_digits (n : ℕ) : ∀ c ∈ printNat n, isDigit c = true := by
  intro c hc
  unfold printNat at hc
  split_ifs at hc with h
  · rw [List.mem_singleton.mp hc]
    decide
  · obtain ⟨d, hd, rfl⟩ := List.mem_map.mp hc
    exact digitChar_isDigit (Nat.digits_lt_base (by norm_num) (List.mem_reverse.mp hd))

theorem printNat_ne_nil (n : ℕ) : printNat n ≠ [] := by
  unfold printNat
  split_ifs with h
  · simp
  · simpa using Nat.digits_ne_nil_iff_ne_zero.mpr h

theorem digitsValue_map (ds : List ℕ) (h : ∀ d ∈ ds, d < 10) :
    digitsValue (ds.reverse.map digitChar) = Nat.ofDigits 10 ds := by
  induction ds with
  | nil => rfl
  | cons d ds ih =>
    have hrest := ih fun x hx => h x (List.mem_cons_of_mem _ hx)
    simp only [digitsValue] at hrest
    simp only [digitsValue, List.reverse_cons, List.map_append, List.map_cons, List.map_nil,
      List.foldl_append, List.foldl_cons, List.foldl_nil, hrest, Nat.ofDigits_cons,
      digitChar_toNat (h d List.mem_cons_self)]
    omega

theorem digitsValue_printNat (n : ℕ) : digitsValue (printNat n) = n := by
  unfold printNat
  split_ifs with h
  · rw [h]
    decide
  · rw [digitsValue_map _ fun d hd => Nat.digits_lt_base (by norm_num) hd, Nat.ofDigits_digits]

theorem printNat_injective : Function.Injective printNat := by
  intro m n hmn
  rw [← digitsValue_printNat m, hmn, digitsValue_printNat]

theorem printInt_chars (n : ℤ) : ∀ c ∈ printInt n, isDigit c = true ∨ c = '-' := by
  intro c hc
  cases n with
  | ofNat n => exact Or.inl (printNat_digits n c hc)
  | negSucc n =>
    obtain rfl | hc := List.mem_cons.mp hc
    · exact Or.inr rfl
    · exact Or.inl (printNat_digits (n + 1) c hc)

theorem printNat_ne_minus (n : ℕ) (rest : List Char) : printNat n ≠ '-' :: rest := by
  intro heq
  have hdigit := printNat_digits n '-' (heq ▸ List.mem_cons_self)
  exact absurd hdigit (by decide)

theorem printInt_injective : Function.Injective printInt := by
  intro m n hmn
  cases m with
  | ofNat m =>
    cases n with
    | ofNat n => rw [printNat_injective hmn]
    | negSucc n => exact absurd hmn (printNat_ne_minus m _)
  | negSucc m =>
    cases n with
    | ofNat n => exact absurd hmn.symm (printNat_ne_minus n _)
    | negSucc n =>
      have hnat := printNat_injective (List.cons.inj hmn).2
      rw [Nat.add_right_cancel hnat]

/-- The leading digit of a positive number is not zero. -/
theorem printNat_zero_head {n : ℕ} {rest : List Char} (h : printNat n = '0' :: rest) :
    rest = [] := by
  unfold printNat at h
  split_ifs at h with hn
  · exact (List.cons.inj h).2.symm
  · exfalso
    have hne : Nat.digits 10 n ≠ [] := Nat.digits_ne_nil_iff_ne_zero.mpr hn
    have hlast := Nat.getLast_digit_ne_zero 10 hn
    rw [← List.dropLast_append_getLast hne, List.reverse_append, List.map_append] at h
    have hz : digitChar ((Nat.digits 10 n).getLast hne) = '0' := (List.cons.inj h).1
    have hlt : (Nat.digits 10 n).getLast hne < 10 :=
      Nat.digits_lt_base (by norm_num) (List.getLast_mem hne)
    have hval := digitChar_toNat hlt
    rw [hz] at hval
    exact hlast hval.symm

theorem span_digits {ds rest : List Char} (hd : ∀ c ∈ ds, isDigit c = true) (hr : Ends rest) :
    (ds ++ rest).span isDigit = (ds, rest) := by
  rw [List.span_eq_takeWhile_dropWhile]
  have hrest : rest.takeWhile isDigit = [] ∧ rest.dropWhile isDigit = rest := by
    cases rest with
    | nil => simp
    | cons c r =>
      have hc : isDigit c = false := by
        rcases hr with rfl | rfl | rfl <;> decide
      simp [hc]
  rw [List.takeWhile_append_of_pos hd, List.dropWhile_append_of_pos hd, hrest.1, hrest.2,
    List.append_nil]

theorem readFraction_ends {rest : List Char} (hr : Ends rest) :
    readFraction rest = some ([], rest) := by
  cases rest with
  | nil => rfl
  | cons c r => rcases hr with rfl | rfl | rfl <;> rfl

theorem readExponent_ends {rest : List Char} (hr : Ends rest) :
    readExponent rest = some ([], rest) := by
  cases rest with
  | nil => rfl
  | cons c r => rcases hr with rfl | rfl | rfl <;> rfl

theorem readNumber_printNat (negative : Bool) (n : ℕ) {rest : List Char} (hr : Ends rest)
    (value : ℤ) (hv : value = if negative then -(n : ℤ) else n)
    (hfit : -2 ^ 63 ≤ value ∧ value < 2 ^ 64) (hz : negative = true → n ≠ 0) :
    readNumber negative (printNat n ++ rest) = some (.num value, rest) := by
  have hfits : (decide (-2 ^ 63 ≤ value ∧ value < 2 ^ 64) && !(negative && value == 0)) =
      true := by
    have hne : (negative && value == 0) = false := by
      cases negative with
      | false => rfl
      | true =>
        have := hz rfl
        simp only [Bool.true_and, beq_eq_false_iff_ne, ne_eq]
        simp only [if_true] at hv
        omega
    rw [decide_eq_true hfit, hne]
    rfl
  have hvalue : (if negative = true then -(digitsValue (printNat n) : ℤ)
      else digitsValue (printNat n)) = value := by rw [digitsValue_printNat, hv]
  unfold readNumber
  rw [span_digits (printNat_digits n) hr]
  split
  · rename_i heq
    exact absurd (Prod.mk.inj heq).1 (printNat_ne_nil n)
  · rename_i heq
    have := printNat_zero_head (Prod.mk.inj heq).1
    simp at this
  · rename_i heq
    obtain ⟨rfl, rfl⟩ := Prod.mk.inj heq
    simp only [readFraction_ends hr, readExponent_ends hr, Option.bind_eq_bind, Option.bind_some,
      hvalue, hfits, List.isEmpty_nil, Bool.and_self, if_true]
    rfl

theorem hexValue_hexDigit {n : ℕ} (h : n < 16) : hexValue? (hexDigit n) = some n := by
  interval_cases n <;> decide

theorem mem_of_lookup {α β : Type} [BEq α] [LawfulBEq α] {l : List (α × β)} {a : α} {b : β}
    (h : l.lookup a = some b) : (a, b) ∈ l := by
  induction l with
  | nil => simp at h
  | cons p rest ih =>
    obtain ⟨x, y⟩ := p
    rw [List.lookup_cons] at h
    by_cases hx : a = x
    · subst hx
      simp only [beq_self_eq_true] at h
      cases h
      exact List.mem_cons_self
    · simp only [beq_eq_false_iff_ne.mpr hx] at h
      exact List.mem_cons_of_mem _ (ih h)

theorem unescape_short {c letter : Char} (h : shortEscapes.lookup c = some letter)
    (rest : List Char) : unescape (letter :: rest) = some (c, rest) := by
  have hm := mem_of_lookup h
  simp only [shortEscapes, List.mem_cons, Prod.mk.injEq, List.not_mem_nil, or_false] at hm
  rcases hm with ⟨rfl, rfl⟩ | ⟨rfl, rfl⟩ | ⟨rfl, rfl⟩ | ⟨rfl, rfl⟩ | ⟨rfl, rfl⟩ | ⟨rfl, rfl⟩ |
    ⟨rfl, rfl⟩ <;> rfl

theorem unescape_control {c : Char} (h : c.toNat < 0x20) (rest : List Char) :
    unescape ('u' :: '0' :: '0' :: hexDigit (c.toNat / 16) :: hexDigit (c.toNat % 16) :: rest) =
      some (c, rest) := by
  have h1 : hexValue? (hexDigit (c.toNat / 16)) = some (c.toNat / 16) :=
    hexValue_hexDigit (by omega)
  have h2 : hexValue? (hexDigit (c.toNat % 16)) = some (c.toNat % 16) :=
    hexValue_hexDigit (by omega)
  have h0 : hexValue? '0' = some 0 := by decide
  have hn : ((0 * 16 + 0) * 16 + c.toNat / 16) * 16 + c.toNat % 16 = c.toNat := by omega
  have hlow : ¬ (0xDC00 ≤ c.toNat ∧ c.toNat ≤ 0xDFFF) := by omega
  have hhigh : ¬ (0xD800 ≤ c.toNat ∧ c.toNat ≤ 0xDBFF) := by omega
  simp only [unescape, hex4, h0, h1, h2, Option.bind_eq_bind, Option.bind_some, Option.pure_def,
    hn, hlow, hhigh, if_false, Char.ofNat_toNat]

theorem readStr_backslash (fuel : ℕ) (rest : List Char) :
    readStr (fuel + 1) ('\\' :: rest) = (unescape rest).bind fun p =>
      (readStr fuel p.2).bind fun q => some (p.1 :: q.1, q.2) := rfl

theorem readStr_escapeChar (fuel : ℕ) (c : Char) (rest : List Char) :
    readStr (fuel + 1) (escapeChar c ++ rest) =
      (readStr fuel rest).map fun p => (c :: p.1, p.2) := by
  unfold escapeChar
  cases hl : shortEscapes.lookup c with
  | some letter =>
    simp only [List.cons_append, List.nil_append, readStr_backslash, unescape_short hl,
      Option.bind_some]
    cases readStr fuel rest <;> rfl
  | none =>
    have hq : c ≠ '"' := by
      rintro rfl
      exact absurd hl (by decide)
    have hb : c ≠ '\\' := by
      rintro rfl
      exact absurd hl (by decide)
    simp only
    split_ifs with hc
    · simp only [List.cons_append, List.nil_append, readStr_backslash, unescape_control hc,
        Option.bind_some]
      cases readStr fuel rest <;> rfl
    · simp only [List.cons_append, List.nil_append, readStr, if_neg hq, if_neg hb, if_neg hc]
      cases readStr fuel rest <;> rfl

theorem readStr_printStr (s : List Char) {fuel : ℕ} (hf : s.length < fuel) (rest : List Char) :
    readStr fuel (s.flatMap escapeChar ++ '"' :: rest) = some (s, rest) := by
  induction s generalizing fuel with
  | nil =>
    obtain ⟨fuel, rfl⟩ : ∃ k, fuel = k + 1 := ⟨fuel - 1, by simp at hf; omega⟩
    rfl
  | cons c s ih =>
    simp only [List.length_cons] at hf
    obtain ⟨fuel, rfl⟩ : ∃ k, fuel = k + 1 := ⟨fuel - 1, by omega⟩
    rw [List.flatMap_cons, List.append_assoc, readStr_escapeChar, ih (by omega)]
    rfl

theorem length_le_escape (s : List Char) : s.length ≤ (s.flatMap escapeChar).length := by
  induction s with
  | nil => simp
  | cons c s ih =>
    have hc : 1 ≤ (escapeChar c).length := by
      unfold escapeChar
      split
      · simp
      · split_ifs <;> simp
    rw [List.flatMap_cons, List.length_append, List.length_cons]
    omega

/-- Reading a printed string, after its opening quote. -/
theorem readStr_quoted (s : String) (rest : List Char) :
    readStr ((s.toList.flatMap escapeChar ++ '"' :: rest).length + 1)
      (s.toList.flatMap escapeChar ++ '"' :: rest) = some (s.toList, rest) := by
  refine readStr_printStr s.toList ?_ rest
  have := length_le_escape s.toList
  simp only [List.length_append]
  omega

theorem insertField_new {fields : List (String × Json)} {key : String}
    (h : key ∉ fields.map Prod.fst) (value : Json) :
    insertField fields key value = fields ++ [(key, value)] := by
  rw [insertField, if_neg (by simpa using h)]

theorem foldl_insertField (fields acc : List (String × Json))
    (h : ((acc ++ fields).map Prod.fst).Nodup) :
    fields.foldl (fun acc f => insertField acc f.1 f.2) acc = acc ++ fields := by
  induction fields generalizing acc with
  | nil => simp
  | cons f fields ih =>
    have hf : f.1 ∉ acc.map Prod.fst := by
      rw [List.map_append, List.map_cons, List.nodup_append] at h
      exact fun hm => h.2.2 _ hm _ List.mem_cons_self rfl
    rw [List.foldl_cons, insertField_new hf, ih _ (by simpa using h)]
    simp

theorem skipSpace_cons {c : Char} (h : isSpace c = false) (rest : List Char) :
    skipSpace (c :: rest) = c :: rest := by
  simp [skipSpace, h]

/-- The first character of a printed number starts no other kind of value. -/
theorem printNat_cons (n : ℕ) : ∃ c rest, printNat n = c :: rest ∧ isDigit c = true := by
  obtain ⟨c, rest, h⟩ := List.exists_cons_of_ne_nil (printNat_ne_nil n)
  exact ⟨c, rest, h, printNat_digits n c (by rw [h]; exact List.mem_cons_self)⟩

theorem isSpace_of_isDigit {c : Char} (h : isDigit c = true) : isSpace c = false := by
  simp only [isDigit, Bool.and_eq_true, decide_eq_true_eq] at h
  simp only [isSpace, Bool.or_eq_false_iff, beq_eq_false_iff_ne, ne_eq]
  refine ⟨⟨⟨?_, ?_⟩, ?_⟩, ?_⟩ <;> rintro rfl <;> revert h <;> decide

theorem readValue_digit {fuel depth : ℕ} {c : Char} {rest : List Char} (h : isDigit c = true) :
    readValue (fuel + 1) depth (c :: rest) = readNumber false (c :: rest) := by
  rw [readValue, skipSpace_cons (isSpace_of_isDigit h)]
  split
  all_goals first
    | rfl
    | (rename_i heq
       have hc := (List.cons.inj heq).1
       subst hc
       exact absurd h (by decide))

theorem ends_printItems (l : List Json) (rest : List Char) : Ends (printItems l ++ rest) := by
  cases l with
  | nil => exact Or.inr (Or.inl rfl)
  | cons j l => exact Or.inl rfl

theorem ends_printFields (l : List (String × Json)) (rest : List Char) :
    Ends (printFields l ++ rest) := by
  cases l with
  | nil => exact Or.inr (Or.inr rfl)
  | cons f l => exact Or.inl rfl

theorem readField_print (key : String) {fuel depth : ℕ} {j : Json} {text rest : List Char}
    (h : readValue fuel depth text = some (j, rest)) :
    readField (fuel + 1) depth (printStr key ++ ':' :: text) = some ((key, j), rest) := by
  have hquote : isSpace '"' = false := by decide
  have hcolon : isSpace ':' = false := by decide
  simp only [printStr, List.cons_append, List.append_assoc, List.nil_append, readField,
    skipSpace_cons hquote, readStr_quoted, Option.bind_eq_bind, Option.bind_some,
    skipSpace_cons hcolon, h, String.ofList_toList, Option.pure_def]

theorem readValue_number {fuel depth : ℕ} {n : ℤ} {rest : List Char}
    (hv : -2 ^ 63 ≤ n ∧ n < 2 ^ 64) (hr : Ends rest) :
    readValue (fuel + 1) depth (printInt n ++ rest) = some (.num n, rest) := by
  cases n with
  | ofNat n =>
    obtain ⟨c, tail, hc, hd⟩ := printNat_cons n
    have hnum := readNumber_printNat false n hr (Int.ofNat n) rfl hv (by simp)
    rw [hc, List.cons_append] at hnum
    rw [printInt, hc, List.cons_append, readValue_digit hd, hnum]
  | negSucc n =>
    have hminus : isSpace '-' = false := by decide
    have hnum := readNumber_printNat true (n + 1) hr (Int.negSucc n) rfl hv (by simp)
    simp only [printInt, List.cons_append, readValue, skipSpace_cons hminus]
    exact hnum

/-- A printed value starts with neither white space nor a closing bracket. -/
theorem print_cons : ∀ (j : Json) (depth : ℕ), j.Valid depth →
    ∃ c tail, print j = c :: tail ∧ isSpace c = false ∧ c ≠ ']'
  | .null, _, _ => ⟨_, _, rfl, by decide, by decide⟩
  | .bool true, _, _ => ⟨_, _, rfl, by decide, by decide⟩
  | .bool false, _, _ => ⟨_, _, rfl, by decide, by decide⟩
  | .num (.ofNat n), _, _ => by
    obtain ⟨c, tail, hc, hd⟩ := printNat_cons n
    refine ⟨c, tail, hc, isSpace_of_isDigit hd, ?_⟩
    rintro rfl
    exact absurd hd (by decide)
  | .num (.negSucc n), _, _ => ⟨_, _, rfl, by decide, by decide⟩
  | .str _, _, _ => ⟨_, _, rfl, by decide, by decide⟩
  | .arr [], _, _ => ⟨_, _, rfl, by decide, by decide⟩
  | .arr (_ :: _), _, _ => ⟨_, _, rfl, by decide, by decide⟩
  | .obj [], _, _ => ⟨_, _, rfl, by decide, by decide⟩
  | .obj (_ :: _), _, _ => ⟨_, _, rfl, by decide, by decide⟩
  | .real _, _, hv => hv.elim

theorem readValue_arr {fuel depth : ℕ} {c : Char} {tail : List Char} (hd : 0 < depth)
    (hs : isSpace c = false) (hc : c ≠ ']') :
    readValue (fuel + 1) depth ('[' :: c :: tail) = (readValue fuel (depth - 1) (c :: tail)).bind
      fun p => (readItems fuel (depth - 1) p.2).bind fun q => some (.arr (p.1 :: q.1), q.2) := by
  have hbracket : isSpace '[' = false := by decide
  rw [readValue, skipSpace_cons hbracket]
  simp only [if_neg (Nat.pos_iff_ne_zero.mp hd), skipSpace_cons hs]
  split
  · rename_i heq
    exact absurd (List.cons.inj heq).1 hc
  · rfl

theorem readValue_obj {fuel depth : ℕ} {tail : List Char} (hd : 0 < depth) :
    readValue (fuel + 1) depth ('\x7b' :: '"' :: tail) =
      (readField fuel (depth - 1) ('"' :: tail)).bind fun p =>
        (readFields fuel (depth - 1) p.2).bind fun q =>
          some (.obj ((p.1 :: q.1).foldl (fun acc f => insertField acc f.1 f.2) []), q.2) := by
  have hbrace : isSpace '\x7b' = false := by decide
  have hquote : isSpace '"' = false := by decide
  rw [readValue, skipSpace_cons hbrace]
  simp only [if_neg (Nat.pos_iff_ne_zero.mp hd), skipSpace_cons hquote]
  rfl

mutual
theorem readValue_print : ∀ (j : Json) (depth fuel : ℕ) (rest : List Char), j.Valid depth →
    (print j).length ≤ fuel → Ends rest →
    readValue fuel depth (print j ++ rest) = some (j, rest)
  | .null, _, fuel + 1, _, _, _, _ => by
    rw [print, List.cons_append, readValue, skipSpace_cons (by decide)]
    rfl
  | .bool true, _, fuel + 1, _, _, _, _ => by
    rw [print, List.cons_append, readValue, skipSpace_cons (by decide)]
    rfl
  | .bool false, _, fuel + 1, _, _, _, _ => by
    rw [print, List.cons_append, readValue, skipSpace_cons (by decide)]
    rfl
  | .num n, depth, fuel + 1, rest, hv, _, hr => by
    rw [print]
    exact readValue_number hv hr
  | .str s, depth, fuel + 1, rest, _, _, _ => by
    have hquote : isSpace '"' = false := by decide
    simp only [print, printStr, List.cons_append, List.append_assoc, List.nil_append, readValue,
      skipSpace_cons hquote, readStr_quoted, Option.bind_eq_bind, Option.bind_some,
      String.ofList_toList, Option.pure_def]
  | .arr [], depth, fuel + 1, rest, hv, _, _ => by
    have hbracket : isSpace '[' = false := by decide
    have hclose : isSpace ']' = false := by decide
    simp only [print, List.cons_append, List.nil_append, readValue, skipSpace_cons hbracket,
      if_neg (Nat.pos_iff_ne_zero.mp hv.1), skipSpace_cons hclose]
  | .arr (j :: l), depth, fuel + 1, rest, hv, hf, _ => by
    simp only [print, List.length_cons, List.length_append] at hf
    obtain ⟨hd, hj, hl⟩ := hv
    have hvalue := readValue_print j (depth - 1) fuel (printItems l ++ rest) hj (by omega)
      (ends_printItems l rest)
    have hitems := readItems_print l (depth - 1) fuel rest hl (by omega)
    obtain ⟨c, tail, hc, hs, hne⟩ := print_cons j (depth - 1) hj
    rw [hc, List.cons_append] at hvalue
    rw [print, hc, List.cons_append, List.append_assoc, List.cons_append,
      readValue_arr hd hs hne, hvalue, Option.bind_some, hitems, Option.bind_some]
  | .obj [], depth, fuel + 1, rest, hv, _, _ => by
    have hbrace : isSpace '\x7b' = false := by decide
    have hclose : isSpace '\x7d' = false := by decide
    simp only [print, List.cons_append, List.nil_append, readValue, skipSpace_cons hbrace,
      if_neg (Nat.pos_iff_ne_zero.mp hv.1), skipSpace_cons hclose]
  | .obj ((k, j) :: l), depth, fuel + 2, rest, hv, hf, _ => by
    simp only [print, List.length_cons, List.length_append] at hf
    obtain ⟨hd, hnodup, hj, hl⟩ := hv
    have hvalue := readValue_print j (depth - 1) fuel (printFields l ++ rest) hj (by omega)
      (ends_printFields l rest)
    have hfields := readFields_print l (depth - 1) (fuel + 1) rest hl (by omega)
    have hfield := readField_print k hvalue
    have hinsert := foldl_insertField ((k, j) :: l) [] (by simpa using hnodup)
    have htext : print (.obj ((k, j) :: l)) ++ rest =
        '\x7b' :: (printStr k ++ ':' :: (print j ++ (printFields l ++ rest))) := by
      simp [print]
    rw [printStr, List.cons_append] at htext hfield
    rw [htext, readValue_obj hd, hfield, Option.bind_some, hfields, Option.bind_some, hinsert,
      List.nil_append]
  | .obj ((k, j) :: l), depth, 1, rest, hv, hf, _ => by
    simp [print, printStr] at hf
  | .real _, _, _, _, hv, _, _ => hv.elim
  | j, depth, 0, _, hv, hf, _ => by
    obtain ⟨c, tail, hc, _⟩ := print_cons j depth hv
    rw [hc] at hf
    simp at hf
theorem readItems_print : ∀ (l : List Json) (depth fuel : ℕ) (rest : List Char),
    Json.ValidItems depth l → (printItems l).length ≤ fuel →
    readItems fuel depth (printItems l ++ rest) = some (l, rest)
  | [], _, fuel + 1, _, _, _ => by
    rw [printItems, List.cons_append, readItems, skipSpace_cons (by decide)]
    rfl
  | j :: l, depth, fuel + 1, rest, hv, hf => by
    simp only [printItems, List.length_cons, List.length_append] at hf
    have hj := readValue_print j depth fuel (printItems l ++ rest) hv.1 (by omega)
      (ends_printItems l rest)
    have hl := readItems_print l depth fuel rest hv.2 (by omega)
    have hcomma : isSpace ',' = false := by decide
    simp only [printItems, List.cons_append, List.append_assoc, readItems, skipSpace_cons hcomma,
      hj, hl, Option.bind_eq_bind, Option.bind_some, Option.pure_def]
  | l, _, 0, _, _, hf => by
    cases l <;> simp [printItems] at hf
theorem readFields_print : ∀ (l : List (String × Json)) (depth fuel : ℕ) (rest : List Char),
    Json.ValidFields depth l → (printFields l).length ≤ fuel →
    readFields fuel depth (printFields l ++ rest) = some (l, rest)
  | [], _, fuel + 1, _, _, _ => by
    rw [printFields, List.cons_append, readFields, skipSpace_cons (by decide)]
    rfl
  | (k, j) :: l, depth, fuel + 2, rest, hv, hf => by
    simp only [printFields, List.length_cons, List.length_append] at hf
    have hvalue := readValue_print j depth fuel (printFields l ++ rest) hv.1 (by omega)
      (ends_printFields l rest)
    have hfields := readFields_print l depth (fuel + 1) rest hv.2 (by omega)
    have hfield := readField_print k hvalue
    have hcomma : isSpace ',' = false := by decide
    rw [printFields, List.cons_append, List.append_assoc, List.cons_append, List.append_assoc,
      readFields, skipSpace_cons hcomma]
    simp only [hfield, hfields, Option.bind_eq_bind, Option.bind_some, Option.pure_def]
  | (k, j) :: l, depth, 1, rest, hv, hf => by
    simp [printFields, printStr] at hf
  | l, _, 0, _, _, hf => by
    cases l <;> simp [printFields] at hf
end

/-- Every valid value is read back from its own text. -/
theorem fromText_toText (j : Json) (hv : j.Valid 127) : fromText (toText j) = some j := by
  have h := readValue_print j 127 ((print j).length + 1) [] hv (by omega) trivial
  rw [List.append_nil] at h
  simp only [fromText, toText, String.toList_ofList, h, Option.bind_eq_bind, Option.bind_some]
  rfl

end RoundTrip

/-- The codec of this text format. -/
def codec : JsonCodec := ⟨fromText, toText, fromText_toText⟩

end VibeKanban.Lib.JsonText
