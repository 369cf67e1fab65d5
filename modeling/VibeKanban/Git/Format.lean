import VibeKanban.Lib.Utf8
import VibeKanban.Lib.Text

/-! What git prints about changed files: the lines of `diff --name-status` and the fields of
`status --porcelain -z`. -/
namespace VibeKanban.Git
open Lib

/-- A path as git stores it: any bytes but NUL. -/
structure FileName where
  bytes : List UInt8
  ne_nil : bytes ≠ []
  no_nul : 0 ∉ bytes
  deriving DecidableEq

section Quoting

/-- The codes that git quotes with `core.quotepath=false`. -/
def mustQuote (code : ℕ) : Bool := code < 0x20 || code == 0x22 || code == 0x5c || code == 0x7f

def octalDigit (n : ℕ) : Char := Char.ofNat (48 + n % 8)

def escapeText (code : ℕ) : List Char :=
  '\\' ::
    match code with
    | 7 => ['a']
    | 8 => ['b']
    | 9 => ['t']
    | 10 => ['n']
    | 11 => ['v']
    | 12 => ['f']
    | 13 => ['r']
    | 34 => ['"']
    | 92 => ['\\']
    | _ => [octalDigit (code / 64), octalDigit (code / 8), octalDigit code]

def quoteCStyle (bytes : List UInt8) : List UInt8 :=
  if bytes.any fun byte => mustQuote byte.toNat then
    0x22 :: (bytes.flatMap fun byte =>
      if mustQuote byte.toNat then encodeUtf8 (escapeText byte.toNat) else [byte]) ++ [0x22]
  else bytes

/-- The quoting of a name that is text. -/
def quoteText (text : List Char) : List Char :=
  if text.any fun c => mustQuote c.toNat then
    '"' :: (text.flatMap fun c => if mustQuote c.toNat then escapeText c.toNat else [c]) ++ ['"']
  else text

theorem mustQuote_lt {code : ℕ} (h : mustQuote code = true) : code < 128 := by
  simp only [mustQuote, Bool.or_eq_true, decide_eq_true_eq, beq_iff_eq] at h
  omega

theorem escapeText_visible : ∀ code < 128, ∀ c ∈ escapeText code, 0x20 ≤ c.toNat := by
  have hall : ∀ code < 128, ((escapeText code).all fun c => 0x20 ≤ c.toNat) = true := by decide
  intro code hcode c hc
  exact of_decide_eq_true (List.all_eq_true.mp (hall code hcode) c hc)

theorem toNat_toUInt8 {c : Char} (h : c.toNat < 128) : c.val.toUInt8.toNat = c.toNat := by
  have hval : c.toNat = c.val.toNat := rfl
  rw [UInt32.toNat_toUInt8]
  omega

/-- The bytes of a character are quoted as the character is. -/
theorem mustQuote_utf8EncodeChar {c : Char} {byte : UInt8} (h : byte ∈ String.utf8EncodeChar c) :
    mustQuote byte.toNat = mustQuote c.toNat := by
  by_cases hascii : c.toNat < 128
  · rw [utf8EncodeChar_ascii hascii, List.mem_singleton] at h
    rw [h, toNat_toUInt8 hascii]
  · have hbyte := le_of_mem_utf8EncodeChar (by omega) h
    rw [Bool.eq_iff_iff]
    constructor
    · intro hquote
      have hlt := mustQuote_lt hquote
      omega
    · intro hquote
      have hlt := mustQuote_lt hquote
      omega

theorem any_mustQuote_encode (text : List Char) :
    ((encodeUtf8 text).any fun byte => mustQuote byte.toNat) = text.any fun c => mustQuote c.toNat := by
  rw [Bool.eq_iff_iff, List.any_eq_true, List.any_eq_true]
  constructor
  · rintro ⟨byte, hbyte, hquote⟩
    obtain ⟨c, hc, hin⟩ := List.mem_flatMap.mp hbyte
    exact ⟨c, hc, mustQuote_utf8EncodeChar hin ▸ hquote⟩
  · rintro ⟨c, hc, hquote⟩
    obtain ⟨byte, hbyte⟩ := List.exists_mem_of_ne_nil _ (String.utf8EncodeChar_ne_nil (c := c))
    exact ⟨byte, List.mem_flatMap.mpr ⟨c, hc, hbyte⟩, (mustQuote_utf8EncodeChar hbyte).trans hquote⟩

theorem flatMap_escape_encode (text : List Char) :
    ((encodeUtf8 text).flatMap fun byte =>
      if mustQuote byte.toNat then encodeUtf8 (escapeText byte.toNat) else [byte]) =
    encodeUtf8 (text.flatMap fun c => if mustQuote c.toNat then escapeText c.toNat else [c]) := by
  induction text with
  | nil => rfl
  | cons c text ih =>
    rw [encodeUtf8_cons, List.flatMap_append, ih, List.flatMap_cons, encodeUtf8_append]
    congr 1
    by_cases hquote : mustQuote c.toNat = true
    · have hascii := mustQuote_lt hquote
      rw [if_pos hquote, utf8EncodeChar_ascii hascii, List.flatMap_singleton, toNat_toUInt8 hascii,
        if_pos hquote]
    · rw [if_neg hquote]
      have hplain : ∀ byte ∈ String.utf8EncodeChar c,
          (if mustQuote byte.toNat then encodeUtf8 (escapeText byte.toNat) else [byte]) = [byte] := by
        intro byte hbyte
        rw [if_neg (mustQuote_utf8EncodeChar hbyte ▸ hquote)]
      rw [List.flatMap_congr hplain, List.flatMap_singleton', encodeUtf8_cons, encodeUtf8_nil,
        List.append_nil]

theorem quoteCStyle_encode (text : List Char) :
    quoteCStyle (encodeUtf8 text) = encodeUtf8 (quoteText text) := by
  unfold quoteCStyle quoteText
  rw [any_mustQuote_encode]
  split
  · have hmark : encodeUtf8 ['"'] = [0x22] := rfl
    rw [flatMap_escape_encode, ← hmark, List.cons_append, encodeUtf8_cons, encodeUtf8_append]
    rfl
  · rfl

theorem quoteText_plain {text : List Char} (h : ∀ c ∈ text, mustQuote c.toNat = false) :
    quoteText text = text := by
  unfold quoteText
  rw [if_neg]
  simpa using h

/-- A quoted name ends with the mark and is longer than the name. -/
theorem quoteText_quoted {text : List Char} (h : ¬ ∀ c ∈ text, mustQuote c.toNat = false) :
    ∃ body, quoteText text = body ++ ['"'] ∧ text.length < (quoteText text).length := by
  have hany : (text.any fun c => mustQuote c.toNat) = true := by
    rw [List.any_eq_true]
    by_contra hnone
    push Not at hnone
    exact h fun c hc => by simpa using hnone c hc
  unfold quoteText
  rw [if_pos hany]
  refine ⟨_, rfl, ?_⟩
  have hlength : text.length ≤
      (text.flatMap fun c => if mustQuote c.toNat then escapeText c.toNat else [c]).length := by
    clear hany h
    induction text with
    | nil => exact le_rfl
    | cons c text ih =>
      rw [List.flatMap_cons, List.length_append, List.length_cons]
      have hone : 1 ≤ (if mustQuote c.toNat then escapeText c.toNat else [c]).length := by
        split <;> simp [escapeText]
      omega
  simp only [List.length_append, List.length_cons]
  omega

/-- No control character is left in a quoted name. -/
theorem quoteText_visible {text : List Char} {c : Char} (h : c ∈ quoteText text) : 0x20 ≤ c.toNat := by
  unfold quoteText at h
  split at h
  · simp only [List.cons_append, List.mem_cons, List.mem_append, List.mem_flatMap, List.not_mem_nil,
      or_false] at h
    rcases h with rfl | ⟨source, hsource, hin⟩ | rfl
    · decide
    · split at hin
      · exact escapeText_visible _ (mustQuote_lt ‹_›) c hin
      · obtain rfl := List.mem_singleton.mp hin
        have hplain : ¬ mustQuote c.toNat = true := ‹_›
        simp only [mustQuote, Bool.or_eq_true, decide_eq_true_eq, beq_iff_eq, not_or] at hplain
        omega
    · decide
  · rename_i hnone
    have hplain : ¬ mustQuote c.toNat = true := fun hquote => hnone (List.any_eq_true.mpr ⟨c, h, hquote⟩)
    simp only [mustQuote, Bool.or_eq_true, decide_eq_true_eq, beq_iff_eq, not_or] at hplain
    omega

end Quoting

end VibeKanban.Git
