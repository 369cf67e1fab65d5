import Mathlib.Data.List.Nodup
import Mathlib.Data.String.Basic

/-! Base64 with the standard alphabet and required padding. Every text that is accepted is the
encoding of what it stands for. -/
namespace VibeKanban.Lib.Base64

def alphabet : List Char :=
  "ABCDEFGHIJKLMNOPQRSTUVWXYZabcdefghijklmnopqrstuvwxyz0123456789+/".toList

def sextetChar (n : ℕ) : Char := alphabet.getD n 'A'

def sextet? (c : Char) : Option ℕ := alphabet.idxOf? c

def encodeChars : List UInt8 → List Char
  | [] => []
  | [a] => [sextetChar (a.toNat / 4), sextetChar (a.toNat % 4 * 16), '=', '=']
  | [a, b] => [sextetChar (a.toNat / 4), sextetChar (a.toNat % 4 * 16 + b.toNat / 16),
      sextetChar (b.toNat % 16 * 4), '=']
  | a :: b :: c :: rest =>
    sextetChar (a.toNat / 4) :: sextetChar (a.toNat % 4 * 16 + b.toNat / 16) ::
      sextetChar (b.toNat % 16 * 4 + c.toNat / 64) :: sextetChar (c.toNat % 64) :: encodeChars rest

/-- The last group, with two padding characters: the bits that stand for nothing are zero. -/
def decodeOne (w x : Char) : Option (List UInt8) := do
  let i ← sextet? w
  let j ← sextet? x
  if j % 16 = 0 then some [UInt8.ofNat (i * 4 + j / 16)] else none

def decodeTwo (w x y : Char) : Option (List UInt8) := do
  let i ← sextet? w
  let j ← sextet? x
  let k ← sextet? y
  if k % 4 = 0 then some [UInt8.ofNat (i * 4 + j / 16), UInt8.ofNat (j % 16 * 16 + k / 4)]
  else none

def decodeThree (w x y z : Char) : Option (List UInt8) := do
  let i ← sextet? w
  let j ← sextet? x
  let k ← sextet? y
  let l ← sextet? z
  some [UInt8.ofNat (i * 4 + j / 16), UInt8.ofNat (j % 16 * 16 + k / 4),
    UInt8.ofNat (k % 4 * 64 + l)]

def decodeChars : List Char → Option (List UInt8)
  | [] => some []
  | w :: x :: y :: z :: rest =>
    if z = '=' then
      if rest ≠ [] then none
      else if y = '=' then decodeOne w x else decodeTwo w x y
    else do
      let group ← decodeThree w x y z
      let tail ← decodeChars rest
      some (group ++ tail)
  | _ => none

def encode (bytes : List UInt8) : String := String.ofList (encodeChars bytes)

def decode (text : String) : Option (List UInt8) := decodeChars text.toList

theorem alphabet_nodup : alphabet.Nodup := by
  have hchars : alphabet = _ := String.toList_ofList
  apply List.Nodup.of_map Char.toNat
  rw [hchars]
  decide +kernel

theorem sextetChar_eq {n : ℕ} (h : n < 64) :
    sextetChar n = alphabet.get ⟨n, (by decide +kernel : 64 = alphabet.length) ▸ h⟩ := by
  have hn : n < alphabet.length := (by decide +kernel : 64 = alphabet.length) ▸ h
  simp [sextetChar, hn]

theorem sextetChar_mem {n : ℕ} (h : n < 64) : sextetChar n ∈ alphabet := by
  rw [sextetChar_eq h]
  exact List.get_mem _ _

theorem sextetChar_ne_pad {n : ℕ} (h : n < 64) : sextetChar n ≠ '=' := by
  intro heq
  exact absurd (heq ▸ sextetChar_mem h) (by decide +kernel)

theorem sextet_some {c : Char} {n : ℕ} (h : sextet? c = some n) : n < 64 ∧ sextetChar n = c := by
  have hfind := List.findIdx?_eq_some_iff_getElem.mp h
  obtain ⟨hlt, hc, _⟩ := hfind
  have h64 : n < 64 := (by decide +kernel : alphabet.length = 64) ▸ hlt
  refine ⟨h64, ?_⟩
  rw [sextetChar_eq h64]
  simpa using hc

theorem sextet_sextetChar {n : ℕ} (h : n < 64) : sextet? (sextetChar n) = some n := by
  cases hs : sextet? (sextetChar n) with
  | none =>
    have hnone := List.idxOf?_eq_none_iff.mp hs
    exact absurd (sextetChar_mem h) hnone
  | some m =>
    obtain ⟨hm, heq⟩ := sextet_some hs
    rw [sextetChar_eq hm, sextetChar_eq h] at heq
    have hi := List.nodup_iff_injective_get.mp alphabet_nodup heq
    rw [Fin.mk.injEq] at hi
    rw [hi]

theorem ofNat_eq {n : ℕ} {a : UInt8} (h : n = a.toNat) : UInt8.ofNat n = a := by
  rw [h, UInt8.ofNat_toNat]

theorem decodeChars_encodeChars : ∀ bytes, decodeChars (encodeChars bytes) = some bytes
  | [] => rfl
  | [a] => by
    have ha := a.toNat_lt
    simp only [encodeChars, decodeChars, decodeOne, if_true, ne_eq, not_true_eq_false, if_false]
    rw [sextet_sextetChar (by omega), sextet_sextetChar (by omega)]
    simp only [Option.bind_eq_bind, Option.bind_some]
    rw [if_pos (by omega), ofNat_eq (a := a) (by omega)]
  | [a, b] => by
    have ha := a.toNat_lt
    have hb := b.toNat_lt
    have hpad := sextetChar_ne_pad (n := b.toNat % 16 * 4) (by omega)
    simp only [encodeChars, decodeChars, decodeTwo, if_true, ne_eq, not_true_eq_false, if_false,
      hpad]
    rw [sextet_sextetChar (by omega), sextet_sextetChar (by omega), sextet_sextetChar (by omega)]
    simp only [Option.bind_eq_bind, Option.bind_some]
    rw [if_pos (by omega), ofNat_eq (a := a) (by omega), ofNat_eq (a := b) (by omega)]
  | a :: b :: c :: rest => by
    have ha := a.toNat_lt
    have hb := b.toNat_lt
    have hc := c.toNat_lt
    have hpad := sextetChar_ne_pad (n := c.toNat % 64) (by omega)
    simp only [encodeChars, decodeChars, decodeThree, if_false, hpad]
    rw [sextet_sextetChar (by omega), sextet_sextetChar (by omega), sextet_sextetChar (by omega),
      sextet_sextetChar (by omega), decodeChars_encodeChars rest]
    simp only [Option.bind_eq_bind, Option.bind_some]
    rw [ofNat_eq (a := a) (by omega), ofNat_eq (a := b) (by omega), ofNat_eq (a := c) (by omega)]
    rfl

theorem toNat_ofNat_eq {n : ℕ} (h : n < 256) : (UInt8.ofNat n).toNat = n := by
  rw [UInt8.toNat_ofNat']
  omega

theorem encodeChars_decodeOne {w x : Char} {bytes : List UInt8} (h : decodeOne w x = some bytes) :
    encodeChars bytes = [w, x, '=', '='] := by
  simp only [decodeOne, Option.bind_eq_bind, Option.bind_eq_some_iff] at h
  obtain ⟨i, hi, j, hj, h⟩ := h
  obtain ⟨hi64, rfl⟩ := sextet_some hi
  obtain ⟨hj64, rfl⟩ := sextet_some hj
  split_ifs at h with hzero
  cases h
  simp only [encodeChars, toNat_ofNat_eq (show i * 4 + j / 16 < 256 by omega)]
  have hfirst : (i * 4 + j / 16) / 4 = i := by omega
  have hsecond : (i * 4 + j / 16) % 4 * 16 = j := by omega
  rw [hfirst, hsecond]

theorem encodeChars_decodeTwo {w x y : Char} {bytes : List UInt8}
    (h : decodeTwo w x y = some bytes) : encodeChars bytes = [w, x, y, '='] := by
  simp only [decodeTwo, Option.bind_eq_bind, Option.bind_eq_some_iff] at h
  obtain ⟨i, hi, j, hj, k, hk, h⟩ := h
  obtain ⟨hi64, rfl⟩ := sextet_some hi
  obtain ⟨hj64, rfl⟩ := sextet_some hj
  obtain ⟨hk64, rfl⟩ := sextet_some hk
  split_ifs at h with hzero
  cases h
  simp only [encodeChars, toNat_ofNat_eq (show i * 4 + j / 16 < 256 by omega),
    toNat_ofNat_eq (show j % 16 * 16 + k / 4 < 256 by omega)]
  have hfirst : (i * 4 + j / 16) / 4 = i := by omega
  have hsecond : (i * 4 + j / 16) % 4 * 16 + (j % 16 * 16 + k / 4) / 16 = j := by omega
  have hthird : (j % 16 * 16 + k / 4) % 16 * 4 = k := by omega
  rw [hfirst, hsecond, hthird]

theorem encodeChars_decodeThree {w x y z : Char} {bytes : List UInt8} (rest : List UInt8)
    (h : decodeThree w x y z = some bytes) :
    encodeChars (bytes ++ rest) = w :: x :: y :: z :: encodeChars rest := by
  simp only [decodeThree, Option.bind_eq_bind, Option.bind_eq_some_iff] at h
  obtain ⟨i, hi, j, hj, k, hk, l, hl, h⟩ := h
  obtain ⟨hi64, rfl⟩ := sextet_some hi
  obtain ⟨hj64, rfl⟩ := sextet_some hj
  obtain ⟨hk64, rfl⟩ := sextet_some hk
  obtain ⟨hl64, rfl⟩ := sextet_some hl
  cases h
  simp only [List.cons_append, List.nil_append, encodeChars,
    toNat_ofNat_eq (show i * 4 + j / 16 < 256 by omega),
    toNat_ofNat_eq (show j % 16 * 16 + k / 4 < 256 by omega),
    toNat_ofNat_eq (show k % 4 * 64 + l < 256 by omega)]
  have hfirst : (i * 4 + j / 16) / 4 = i := by omega
  have hsecond : (i * 4 + j / 16) % 4 * 16 + (j % 16 * 16 + k / 4) / 16 = j := by omega
  have hthird : (j % 16 * 16 + k / 4) % 16 * 4 + (k % 4 * 64 + l) / 64 = k := by omega
  have hfourth : (k % 4 * 64 + l) % 64 = l := by omega
  rw [hfirst, hsecond, hthird, hfourth]

theorem encodeChars_of_decodeChars {text : List Char} {bytes : List UInt8}
    (h : decodeChars text = some bytes) : encodeChars bytes = text := by
  fun_induction decodeChars text generalizing bytes with
  | case1 => cases h; rfl
  | case2 => cases h
  | case3 w x rest hrest =>
    rw [encodeChars_decodeOne h, not_not.mp hrest]
  | case4 w x y rest hrest hy =>
    rw [encodeChars_decodeTwo h, not_not.mp hrest]
  | case5 w x y z rest hz ih =>
    simp only [Option.bind_eq_bind, Option.bind_eq_some_iff, Option.some.injEq] at h
    obtain ⟨group, hgroup, tail, htail, rfl⟩ := h
    rw [encodeChars_decodeThree tail hgroup, ih htail]
  | case6 => cases h

theorem encode_of_decode {text : String} {bytes : List UInt8} (h : decode text = some bytes) :
    encode bytes = text := by
  rw [encode, encodeChars_of_decodeChars h, String.ofList_toList]

theorem encodeChars_subset : ∀ (bytes : List UInt8), ∀ c ∈ encodeChars bytes,
    c ∈ alphabet ∨ c = '='
  | [] => by simp [encodeChars]
  | [a] => by
    have ha := a.toNat_lt
    simp only [encodeChars, List.mem_cons, List.not_mem_nil, or_false]
    rintro c (rfl | rfl | rfl | rfl)
    · exact Or.inl (sextetChar_mem (by omega))
    · exact Or.inl (sextetChar_mem (by omega))
    · exact Or.inr rfl
    · exact Or.inr rfl
  | [a, b] => by
    have ha := a.toNat_lt
    have hb := b.toNat_lt
    simp only [encodeChars, List.mem_cons, List.not_mem_nil, or_false]
    rintro c (rfl | rfl | rfl | rfl)
    · exact Or.inl (sextetChar_mem (by omega))
    · exact Or.inl (sextetChar_mem (by omega))
    · exact Or.inl (sextetChar_mem (by omega))
    · exact Or.inr rfl
  | a :: b :: d :: rest => by
    have ha := a.toNat_lt
    have hb := b.toNat_lt
    have hd := d.toNat_lt
    simp only [encodeChars, List.mem_cons]
    rintro c (rfl | rfl | rfl | rfl | hc)
    · exact Or.inl (sextetChar_mem (by omega))
    · exact Or.inl (sextetChar_mem (by omega))
    · exact Or.inl (sextetChar_mem (by omega))
    · exact Or.inl (sextetChar_mem (by omega))
    · exact encodeChars_subset rest c hc

theorem bar_not_mem_encodeChars (bytes : List UInt8) : '|' ∉ encodeChars bytes := by
  intro hmem
  obtain hin | heq := encodeChars_subset bytes _ hmem
  · exact absurd hin (by decide +kernel)
  · exact absurd heq (by decide)

theorem decode_encode (bytes : List UInt8) : decode (encode bytes) = some bytes := by
  rw [decode, encode, String.toList_ofList, decodeChars_encodeChars]

end VibeKanban.Lib.Base64
