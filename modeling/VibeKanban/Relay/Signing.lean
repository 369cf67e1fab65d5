import VibeKanban.Lib.Base64
import VibeKanban.Lib.Tally
import VibeKanban.Lib.Text
import VibeKanban.Lib.Uuid

/-! What relay peers sign: texts of fields between bars that end in the hash of the content. -/
namespace VibeKanban.Relay
open Lib

structure RequestSignature where
  signingSessionId : Uuid
  timestamp : ℤ
  nonce : Uuid
  signatureB64 : String
  deriving DecidableEq

/-- Ed25519 on the UTF-8 bytes of a text, and SHA-256 without collisions. -/
structure RelayCrypto (SK PK : Type) where
  sha256 : List UInt8 → List UInt8
  publicKey : SK → PK
  sign : SK → List Char → List UInt8
  verify : PK → List Char → List UInt8 → Bool
  sha256_injective : Function.Injective sha256
  sign_length : ∀ key text, (sign key text).length = 64
  verify_sign : ∀ key text, verify (publicKey key) text (sign key text) = true

variable {SK PK : Type} (C : RelayCrypto SK PK)

def contentHash (content : List UInt8) : List Char := Base64.encodeChars (C.sha256 content)

def buildRequestSigningMessage (sig : RequestSignature) (method pathAndQuery : List Char)
    (body : List UInt8) : List Char :=
  "v1|".toList ++ (JsonText.printInt sig.timestamp ++ '|' :: (method ++ '|' :: (pathAndQuery ++ '|' ::
    (sig.signingSessionId.toChars ++ '|' :: (sig.nonce.toChars ++ '|' :: contentHash C body)))))

def buildResponseSigningMessage (timestamp : ℤ) (status : ℕ) (pathAndQuery : List Char)
    (signingSessionId requestNonce responseNonce : Uuid) (body : List UInt8) : List Char :=
  "v1|".toList ++ (JsonText.printInt timestamp ++ '|' :: (JsonText.printNat status ++ '|' ::
    (pathAndQuery ++ '|' :: (signingSessionId.toChars ++ '|' :: (requestNonce.toChars ++ '|' ::
      (responseNonce.toChars ++ '|' :: contentHash C body))))))

def buildRefreshMessage (timestamp : ℤ) (nonce : List Char) (clientId : Uuid) : List Char :=
  "v1|".toList ++ ("refresh".toList ++ '|' :: (JsonText.printInt timestamp ++ '|' ::
    (nonce ++ '|' :: clientId.toChars)))

variable {C}

theorem contentHash_injective : Function.Injective (contentHash C) := by
  intro a b hab
  have hdecode := Base64.decodeChars_encodeChars (C.sha256 a)
  rw [contentHash, contentHash] at hab
  rw [hab, Base64.decodeChars_encodeChars] at hdecode
  exact C.sha256_injective (Option.some.inj hdecode).symm

theorem bar_not_mem_contentHash (content : List UInt8) : '|' ∉ contentHash C content :=
  Base64.bar_not_mem_encodeChars _

theorem bar_not_mem_printNat (n : ℕ) : '|' ∉ JsonText.printNat n := by
  intro hmem
  exact absurd (JsonText.printNat_digits n _ hmem) (by decide)

theorem bar_not_mem_printInt (n : ℤ) : '|' ∉ JsonText.printInt n := by
  intro hmem
  exact absurd (JsonText.printInt_chars n _ hmem) (by decide)

/-- One key, with the given hashes of contents and signatures of texts; other values elsewhere. -/
def knownCrypto (digests : List (List UInt8 × List UInt8)) (signatures : List (List Char × List UInt8))
    (hnodup : (digests.map Prod.snd).Nodup) (hmark : ∀ entry ∈ digests, entry.2.head? ≠ some 0)
    (hlength : ∀ entry ∈ signatures, entry.2.length = 64) : RelayCrypto Unit Unit where
  sha256 := writeKnown digests (marks 0)
  publicKey _ := ()
  sign _ text := (signatures.lookup text).getD (List.replicate 64 0)
  verify _ text signature := signature = (signatures.lookup text).getD (List.replicate 64 0)
  sha256_injective :=
    writeKnown_injective hnodup (fun entry hentry => marks_ne (hmark entry hentry)) (markCount_marks 0)
  sign_length _ text := by
    cases hlookup : signatures.lookup text with
    | none => exact List.length_replicate
    | some signature =>
      obtain ⟨before, after, hsplit, _⟩ := List.lookup_eq_some_iff.mp hlookup
      apply hlength (text, signature)
      simp [hsplit]
  verify_sign _ _ := decide_eq_true rfl

theorem knownCrypto_sign {digests : List (List UInt8 × List UInt8)}
    {signatures : List (List Char × List UInt8)} {hnodup : (digests.map Prod.snd).Nodup}
    {hmark : ∀ entry ∈ digests, entry.2.head? ≠ some 0} {hlength : ∀ entry ∈ signatures, entry.2.length = 64}
    {text : List Char} {signature : List UInt8} (h : signatures.lookup text = some signature) :
    (knownCrypto digests signatures hnodup hmark hlength).sign () text = signature := by
  simp only [knownCrypto, h, Option.getD_some]

end VibeKanban.Relay
