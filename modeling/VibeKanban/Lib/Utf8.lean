import Mathlib.Data.List.Basic
import Mathlib.Data.Char

/-! Texts as UTF-8 bytes, and the reading of bytes that need not be UTF-8. -/
namespace VibeKanban.Lib

def encodeUtf8 (text : List Char) : List UInt8 := text.flatMap String.utf8EncodeChar

@[simp] theorem encodeUtf8_nil : encodeUtf8 [] = [] := rfl

@[simp] theorem encodeUtf8_cons (c : Char) (text : List Char) :
    encodeUtf8 (c :: text) = String.utf8EncodeChar c ++ encodeUtf8 text := List.flatMap_cons

@[simp] theorem encodeUtf8_append (a b : List Char) :
    encodeUtf8 (a ++ b) = encodeUtf8 a ++ encodeUtf8 b := List.flatMap_append

def isContinuation (byte : UInt8) : Bool := 0x80 ≤ byte && byte ≤ 0xBF

/-- How many bytes one replacement stands for, where no character begins: the longest start of one. -/
def invalidLength : List UInt8 → ℕ
  | first :: second :: rest =>
    let three := (first == 0xE0 && 0xA0 ≤ second && second ≤ 0xBF) ||
      (0xE1 ≤ first && first ≤ 0xEC && isContinuation second) ||
      (first == 0xED && 0x80 ≤ second && second ≤ 0x9F) ||
      (0xEE ≤ first && first ≤ 0xEF && isContinuation second)
    let four := (first == 0xF0 && 0x90 ≤ second && second ≤ 0xBF) ||
      (0xF1 ≤ first && first ≤ 0xF3 && isContinuation second) ||
      (first == 0xF4 && 0x80 ≤ second && second ≤ 0x8F)
    if three then 2
    else if four then (if rest.head?.any isContinuation then 3 else 2)
    else 1
  | _ => 1

/-- Bytes as text, what is not UTF-8 replaced. -/
def fromUtf8Lossy (bytes : List UInt8) : List Char :=
  if _h : bytes = [] then []
  else match bytes.toByteArray.utf8DecodeChar? 0 with
  | some c => c :: fromUtf8Lossy (bytes.drop (max c.utf8Size 1))
  | none => '\uFFFD' :: fromUtf8Lossy (bytes.drop (max (invalidLength bytes) 1))
termination_by bytes.length
decreasing_by
  all_goals
    have hpos := List.length_pos_iff.mpr _h
    rw [List.length_drop]
    omega

theorem fromUtf8Lossy_nil : fromUtf8Lossy [] = [] := by
  rw [fromUtf8Lossy, dif_pos rfl]

theorem fromUtf8Lossy_encode_append (text : List Char) (rest : List UInt8) :
    fromUtf8Lossy (encodeUtf8 text ++ rest) = text ++ fromUtf8Lossy rest := by
  induction text with
  | nil => rfl
  | cons c text ih =>
    rw [fromUtf8Lossy, encodeUtf8_cons, List.append_assoc, dif_neg]
    · rw [List.toByteArray_append, ByteArray.utf8DecodeChar?_utf8EncodeChar_append]
      have hsize : max c.utf8Size 1 = (String.utf8EncodeChar c).length := by
        have hpos := c.utf8Size_pos
        rw [String.length_utf8EncodeChar]
        omega
      simp only [hsize, List.drop_left, ih, List.cons_append]
    · simp

theorem fromUtf8Lossy_encode (text : List Char) : fromUtf8Lossy (encodeUtf8 text) = text := by
  have h := fromUtf8Lossy_encode_append text []
  rwa [List.append_nil, fromUtf8Lossy_nil, List.append_nil] at h

theorem encodeUtf8_injective : Function.Injective encodeUtf8 := by
  intro a b h
  rw [← fromUtf8Lossy_encode a, h, fromUtf8Lossy_encode]

theorem utf8EncodeChar_ascii {c : Char} (h : c.toNat < 128) :
    String.utf8EncodeChar c = [c.val.toUInt8] := by
  apply String.utf8EncodeChar_eq_singleton
  rw [Char.utf8Size_eq_one_iff, UInt32.le_iff_toNat_le]
  have hval : c.toNat = c.val.toNat := rfl
  have hbound : (127 : UInt32).toNat = 127 := rfl
  omega

theorem le_or_of_le {x mark : UInt8} (h : 128 ≤ mark.toNat) : 128 ≤ (x ||| mark).toNat := by
  rw [UInt8.toNat_or]
  exact Nat.le_trans h Nat.right_le_or

/-- The bytes of a character beyond ASCII are beyond ASCII. -/
theorem le_of_mem_utf8EncodeChar {c : Char} (h : 128 ≤ c.toNat) {byte : UInt8}
    (hbyte : byte ∈ String.utf8EncodeChar c) : 128 ≤ byte.toNat := by
  have hone : c.utf8Size ≠ 1 := by
    rw [Ne, Char.utf8Size_eq_one_iff, UInt32.le_iff_toNat_le]
    have hval : c.toNat = c.val.toNat := rfl
    have hbound : (127 : UInt32).toNat = 127 := rfl
    omega
  rcases c.utf8Size_eq with hsize | hsize | hsize | hsize
  · exact absurd hsize hone
  · rw [String.utf8EncodeChar_eq_cons_cons hsize] at hbyte
    simp only [List.mem_cons, List.not_mem_nil, or_false] at hbyte
    rcases hbyte with rfl | rfl <;> exact le_or_of_le (by decide)
  · rw [String.utf8EncodeChar_eq_cons_cons_cons hsize] at hbyte
    simp only [List.mem_cons, List.not_mem_nil, or_false] at hbyte
    rcases hbyte with rfl | rfl | rfl <;> exact le_or_of_le (by decide)
  · rw [String.utf8EncodeChar_eq_cons_cons_cons_cons hsize] at hbyte
    simp only [List.mem_cons, List.not_mem_nil, or_false] at hbyte
    rcases hbyte with rfl | rfl | rfl | rfl <;> exact le_or_of_le (by decide)

end VibeKanban.Lib
