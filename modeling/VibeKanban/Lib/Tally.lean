import Mathlib.Logic.Equiv.List
import Mathlib.Data.List.Nodup
import Mathlib.Data.String.Basic

/-! A written form for every value of a countable type that is given for some of the values. It
shows that the laws asked of a format can be met together with the format's own texts. -/
namespace VibeKanban.Lib

instance encodableChar : Encodable Char := Encodable.ofLeftInverse Char.toNat Char.ofNat Char.ofNat_toNat

instance encodableString : Encodable String :=
  Encodable.ofLeftInverse String.toList String.ofList fun _ => String.ofList_toList

instance encodableUInt8 : Encodable UInt8 := Encodable.ofLeftInverse UInt8.toNat UInt8.ofNat fun _ => by simp

/-- A number in unary. -/
def marks {β : Type} (mark : β) (n : ℕ) : List β := List.replicate (n + 1) mark

/-- The number a text in unary stands for. -/
def markCount {β : Type} (text : List β) : ℕ := text.length - 1

@[simp] theorem markCount_marks {β : Type} (mark : β) (n : ℕ) : markCount (marks mark n) = n := by
  simp [markCount, marks]

theorem marks_ne {β : Type} {mark : β} {text : List β} (h : text.head? ≠ some mark) (n : ℕ) :
    marks mark n ≠ text := by
  rintro rfl
  simp [marks, List.replicate_succ] at h

theorem mem_marks {β : Type} (mark : β) (n : ℕ) : mark ∈ marks mark n := by
  simp [marks]

def tally (n : ℕ) : String := String.ofList (marks 'x' n)

def tallyCount (text : String) : ℕ := markCount text.toList

@[simp] theorem tallyCount_tally (n : ℕ) : tallyCount (tally n) = n := by
  simp [tallyCount, tally]

theorem tally_ne {n : ℕ} {s : String} (h : s.toList.head? ≠ some 'x') : tally n ≠ s := by
  rintro rfl
  simp [tally, marks, List.replicate_succ] at h

section Known
variable {α T : Type} [DecidableEq α] [Encodable α] (known : List (α × T)) (fresh : ℕ → T)
  (number : T → ℕ)

/-- The text given for a value, or else the fresh one of its number. -/
def writeKnown (a : α) : T := (known.lookup a).getD (fresh (Encodable.encode a))

def readKnown [DecidableEq T] (text : T) : Option α :=
  match known.find? fun entry => entry.2 = text with
  | some entry => some entry.1
  | none => Encodable.decode (number text)

variable {known fresh number}

theorem writeKnown_lookup {a : α} {text : T} (h : known.lookup a = some text) :
    writeKnown known fresh a = text := by
  simp only [writeKnown, h, Option.getD_some]

theorem writeKnown_cases (a : α) :
    (∃ entry ∈ known, writeKnown known fresh a = entry.2) ∨
      writeKnown known fresh a = fresh (Encodable.encode a) := by
  unfold writeKnown
  cases hlookup : known.lookup a with
  | some text =>
    obtain ⟨before, after, heq, _⟩ := List.lookup_eq_some_iff.mp hlookup
    exact Or.inl ⟨(a, text), by simp [heq], rfl⟩
  | none => exact Or.inr rfl

/-- What holds of the given texts and of the fresh ones holds of every text. -/
theorem forall_writeKnown {P : T → Prop} (hknown : ∀ entry ∈ known, P entry.2)
    (hfresh : ∀ n, P (fresh n)) (a : α) : P (writeKnown known fresh a) := by
  rcases writeKnown_cases a with ⟨entry, hentry, heq⟩ | heq
  · rw [heq]
    exact hknown entry hentry
  · rw [heq]
    exact hfresh _

variable [DecidableEq T]

theorem readKnown_writeKnown (hnodup : (known.map Prod.snd).Nodup)
    (hapart : ∀ entry ∈ known, ∀ n, fresh n ≠ entry.2) (hnumber : ∀ n, number (fresh n) = n)
    (a : α) : readKnown known number (writeKnown known fresh a) = some a := by
  unfold readKnown writeKnown
  cases hlookup : known.lookup a with
  | some text =>
    obtain ⟨before, after, heq, _⟩ := List.lookup_eq_some_iff.mp hlookup
    have hmem : (a, text) ∈ known := by simp [heq]
    have hfound : known.find? (fun entry => entry.2 = text) = some (a, text) := by
      cases hfind : known.find? fun entry => entry.2 = text with
      | none => exact absurd (List.find?_eq_none.mp hfind (a, text) hmem) (by simp)
      | some entry =>
        have hentry := List.mem_of_find?_eq_some hfind
        have htext : entry.2 = text := by simpa using List.find?_some hfind
        rw [List.inj_on_of_nodup_map hnodup hentry hmem htext]
    simp only [Option.getD_some, hfound]
  | none =>
    have hnone : known.find? (fun entry => entry.2 = fresh (Encodable.encode a)) = none := by
      rw [List.find?_eq_none]
      intro entry hentry heq
      exact hapart entry hentry _ (of_decide_eq_true heq).symm
    simp only [Option.getD_none, hnone, hnumber, Encodable.encodek]

theorem writeKnown_injective (hnodup : (known.map Prod.snd).Nodup)
    (hapart : ∀ entry ∈ known, ∀ n, fresh n ≠ entry.2) (hnumber : ∀ n, number (fresh n) = n) :
    Function.Injective (writeKnown known fresh) := by
  intro a b hab
  have h := readKnown_writeKnown hnodup hapart hnumber a
  rw [hab, readKnown_writeKnown hnodup hapart hnumber b] at h
  exact (Option.some.inj h).symm

end Known

end VibeKanban.Lib
