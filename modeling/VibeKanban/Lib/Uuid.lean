import Mathlib.Data.List.GetD
import VibeKanban.Lib.JsonText

/-! Identifiers of sixteen bytes and their hyphenated text. -/
namespace VibeKanban.Lib

structure Uuid where
  bytes : List UInt8
  length_bytes : bytes.length = 16
  deriving DecidableEq

namespace Uuid

def nil : Uuid := ⟨List.replicate 16 0, List.length_replicate⟩

def hexByte (b : UInt8) : List Char :=
  [JsonText.hexDigit (b.toNat / 16), JsonText.hexDigit (b.toNat % 16)]

def hex (bytes : List UInt8) : List Char := bytes.flatMap hexByte

/-- Groups of 8, 4, 4, 4 and 12 digits. -/
def toChars (u : Uuid) : List Char :=
  hex (u.bytes.take 4) ++ '-' :: (hex ((u.bytes.drop 4).take 2) ++ '-' ::
    (hex ((u.bytes.drop 6).take 2) ++ '-' :: (hex ((u.bytes.drop 8).take 2) ++ '-' ::
      hex (u.bytes.drop 10))))

theorem hexDigit_inj {m n : ℕ} (hm : m < 16) (hn : n < 16)
    (h : JsonText.hexDigit m = JsonText.hexDigit n) : m = n := by
  have hread := JsonText.hexValue_hexDigit hm
  rw [h, JsonText.hexValue_hexDigit hn] at hread
  exact (Option.some.inj hread).symm

theorem hexByte_injective : Function.Injective hexByte := by
  intro a b hab
  have ha := a.toNat_lt
  have hb := b.toNat_lt
  rw [hexByte, hexByte, List.cons.injEq, List.cons.injEq] at hab
  have hhigh := hexDigit_inj (by omega) (by omega) hab.1
  have hlow := hexDigit_inj (by omega) (by omega) hab.2.1
  exact UInt8.toNat_inj.mp (by omega)

theorem hex_injective : Function.Injective hex := by
  intro a
  induction a with
  | nil =>
    intro b hab
    cases b with
    | nil => rfl
    | cons b rest => cases hab
  | cons a as ih =>
    intro b hab
    cases b with
    | nil => cases hab
    | cons b bs =>
      obtain ⟨hhead, htail⟩ := List.append_inj hab rfl
      rw [hexByte_injective hhead, ih htail]

theorem hexDigit_mem (n : ℕ) : JsonText.hexDigit n ∈ "0123456789abcdef".toList := by
  by_cases hn : n < "0123456789abcdef".toList.length
  · rw [JsonText.hexDigit, List.getD_eq_getElem _ _ hn]
    exact List.getElem_mem hn
  · rw [JsonText.hexDigit, List.getD_eq_default _ _ (Nat.le_of_not_lt hn)]
    decide

theorem mem_hex {bytes : List UInt8} {c : Char} (h : c ∈ hex bytes) :
    c ∈ "0123456789abcdef".toList := by
  obtain ⟨b, _, hc⟩ := List.mem_flatMap.mp h
  rw [hexByte, List.mem_cons, List.mem_singleton] at hc
  obtain rfl | rfl := hc
  · exact hexDigit_mem _
  · exact hexDigit_mem _

theorem filter_hex (bytes : List UInt8) : (hex bytes).filter (· ≠ '-') = hex bytes := by
  rw [List.filter_eq_self]
  intro c hc
  have hdigits : ("0123456789abcdef".toList.all fun c => decide (c ≠ '-')) = true := by decide
  exact List.all_eq_true.mp hdigits c (mem_hex hc)

/-- Without the hyphens the text is the digits of all bytes. -/
theorem filter_toChars (u : Uuid) : u.toChars.filter (· ≠ '-') = hex u.bytes := by
  have hhyphen : ∀ rest : List Char, ('-' :: rest).filter (· ≠ '-') = rest.filter (· ≠ '-') :=
    fun rest => List.filter_cons_of_neg (by simp)
  simp only [toChars, List.filter_append, hhyphen, filter_hex]
  simp only [hex, ← List.flatMap_append]
  congr 1
  obtain ⟨bytes, hlength⟩ := u
  dsimp only
  rw [show bytes.drop 10 = (bytes.drop 8).drop 2 by rw [List.drop_drop], List.take_append_drop,
    show bytes.drop 8 = (bytes.drop 6).drop 2 by rw [List.drop_drop], List.take_append_drop,
    show bytes.drop 6 = (bytes.drop 4).drop 2 by rw [List.drop_drop], List.take_append_drop,
    List.take_append_drop]

theorem toChars_injective : Function.Injective toChars := by
  intro u v huv
  have hhex := filter_toChars u
  rw [huv, filter_toChars v] at hhex
  cases u
  cases v
  congr 1
  exact (hex_injective hhex).symm

theorem bar_not_mem_toChars (u : Uuid) : '|' ∉ u.toChars := by
  intro hmem
  have hfilter : '|' ∈ u.toChars.filter (· ≠ '-') := List.mem_filter.mpr ⟨hmem, by decide⟩
  rw [filter_toChars] at hfilter
  exact absurd (mem_hex hfilter) (by decide)

end Uuid

end VibeKanban.Lib
