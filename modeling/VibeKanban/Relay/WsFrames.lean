import VibeKanban.Relay.Signing

/-! The signed WebSocket frames of the relay: one signer, one verifier, and anything in between. -/
namespace VibeKanban.Relay
open Lib

inductive RelayWsMessageType where
  | text | binary | ping | pong | close
  deriving DecidableEq, Repr

def RelayWsMessageType.asStr : RelayWsMessageType → List Char
  | .text => "text".toList
  | .binary => "binary".toList
  | .ping => "ping".toList
  | .pong => "pong".toList
  | .close => "close".toList

structure RelayWsFrame where
  msgType : RelayWsMessageType
  payload : List UInt8
  deriving DecidableEq, Repr

structure SignedWsEnvelope where
  version : ℕ
  seq : ℕ
  msgType : RelayWsMessageType
  payloadB64 : String
  signatureB64 : String
  deriving DecidableEq, Repr

def envelopeVersion : ℕ := 1

def u64Max : ℕ := 2 ^ 64 - 1

def saturatingAdd (a b : ℕ) : ℕ := min (a + b) u64Max

/-- The JSON bytes of an envelope. A number that does not fit its member is not read. -/
structure EnvelopeCodec where
  toVec : SignedWsEnvelope → List UInt8
  fromSlice : List UInt8 → Option SignedWsEnvelope
  fromSlice_toVec : ∀ envelope : SignedWsEnvelope, envelope.version < 2 ^ 8 →
    envelope.seq ≤ u64Max → fromSlice (toVec envelope) = some envelope

structure WsFrameSigner (SK : Type) where
  requestSignature : RequestSignature
  outboundSeq : ℕ
  signing : SK

structure WsFrameVerifier (PK : Type) where
  requestSignature : RequestSignature
  inboundSeq : ℕ
  peerVerifyKey : PK

variable {SK PK : Type} (C : RelayCrypto SK PK) (K : EnvelopeCodec)

def WsFrameSigner.new (sig : RequestSignature) (signing : SK) : WsFrameSigner SK := ⟨sig, 0, signing⟩

def WsFrameVerifier.new (sig : RequestSignature) (key : PK) : WsFrameVerifier PK := ⟨sig, 0, key⟩

def wsSigningInput (sig : RequestSignature) (seq : ℕ) (msgType : RelayWsMessageType)
    (payload : List UInt8) : List Char :=
  "v1|".toList ++ (sig.signingSessionId.toChars ++ '|' :: (sig.nonce.toChars ++ '|' ::
    (JsonText.printNat seq ++ '|' :: (msgType.asStr ++ '|' :: contentHash C payload))))

/-- The bytes of a frame with its sequence number. -/
def signedEnvelope (signing : SK) (sig : RequestSignature) (seq : ℕ) (frame : RelayWsFrame) :
    List UInt8 :=
  let signature := C.sign signing (wsSigningInput C sig seq frame.msgType frame.payload)
  K.toVec ⟨envelopeVersion, seq, frame.msgType, Base64.encode frame.payload, Base64.encode signature⟩

def WsFrameSigner.encode (s : WsFrameSigner SK) (frame : RelayWsFrame) :
    WsFrameSigner SK × List UInt8 :=
  let seq := saturatingAdd s.outboundSeq 1
  ({ s with outboundSeq := seq }, signedEnvelope C K s.signing s.requestSignature seq frame)

def WsFrameVerifier.decode (v : WsFrameVerifier PK) (raw : List UInt8) :
    Except String RelayWsFrame × WsFrameVerifier PK :=
  match K.fromSlice raw with
  | none => (.error "invalid relay WS envelope JSON", v)
  | some envelope =>
    if envelope.version ≠ envelopeVersion then
      (.error "unsupported relay WS envelope version", v)
    else if envelope.seq ≠ saturatingAdd v.inboundSeq 1 then
      (.error ("invalid relay WS sequence: expected " ++ toString (saturatingAdd v.inboundSeq 1) ++
        ", got " ++ toString envelope.seq), v)
    else
      match Base64.decode envelope.payloadB64 with
      | none => (.error "invalid relay WS payload", v)
      | some payload =>
        match Base64.decode envelope.signatureB64 with
        | none => (.error "invalid relay WS frame signature encoding", v)
        | some signature =>
          if signature.length ≠ 64 then (.error "invalid relay WS frame signature", v)
          else if C.verify v.peerVerifyKey
              (wsSigningInput C v.requestSignature envelope.seq envelope.msgType payload) signature then
            (.ok ⟨envelope.msgType, payload⟩, { v with inboundSeq := envelope.seq })
          else (.error "invalid relay WS frame signature", v)

/-- A frame is encoded, or any bytes at all are given to the verifier. -/
inductive WsEvent where
  | encode (frame : RelayWsFrame)
  | decode (raw : List UInt8)

/-- Both ends, with the frames encoded, the texts signed and the frames accepted so far. -/
structure WsStream (SK PK : Type) where
  signer : WsFrameSigner SK
  verifier : WsFrameVerifier PK
  encoded : List RelayWsFrame
  signed : List (List Char)
  accepted : List RelayWsFrame

namespace WsStream

def start (sig : RequestSignature) (key : SK) : WsStream SK PK :=
  ⟨.new sig key, .new sig (C.publicKey key), [], [], []⟩

def step (s : WsStream SK PK) : WsEvent → WsStream SK PK
  | .encode frame =>
    let signer := (s.signer.encode C K frame).1
    { s with
      signer := signer
      encoded := s.encoded ++ [frame]
      signed := s.signed ++
        [wsSigningInput C signer.requestSignature signer.outboundSeq frame.msgType frame.payload] }
  | .decode raw =>
    match s.verifier.decode C K raw with
    | (.ok frame, verifier) => { s with verifier := verifier, accepted := s.accepted ++ [frame] }
    | (.error _, verifier) => { s with verifier := verifier }

def run (s : WsStream SK PK) (events : List WsEvent) : WsStream SK PK := events.foldl (step C K) s

/-- The text and the signature that an input puts before the verifier. -/
def presented (sig : RequestSignature) (raw : List UInt8) : Option (List Char × List UInt8) := do
  let envelope ← K.fromSlice raw
  let payload ← Base64.decode envelope.payloadB64
  let signature ← Base64.decode envelope.signatureB64
  return (wsSigningInput C sig envelope.seq envelope.msgType payload, signature)

/-- No input carries a valid signature of a text that has not been signed. -/
def Unforged : WsStream SK PK → List WsEvent → Prop
  | _, [] => True
  | s, .encode frame :: rest => Unforged (s.step C K (.encode frame)) rest
  | s, .decode raw :: rest =>
    (∀ text signature, presented C K s.verifier.requestSignature raw = some (text, signature) →
      C.verify s.verifier.peerVerifyKey text signature = true → text ∈ s.signed) ∧
    Unforged (s.step C K (.decode raw)) rest

end WsStream

def encodedFrames (events : List WsEvent) : List RelayWsFrame :=
  events.filterMap fun
    | .encode frame => some frame
    | .decode _ => none

def encodeAll : WsFrameSigner SK → List RelayWsFrame → List (List UInt8)
  | _, [] => []
  | s, frame :: rest => (s.encode C K frame).2 :: encodeAll (s.encode C K frame).1 rest

def decodeAll : WsFrameVerifier PK → List (List UInt8) → List (Except String RelayWsFrame)
  | _, [] => []
  | v, raw :: rest => (v.decode C K raw).1 :: decodeAll (v.decode C K raw).2 rest

variable {C K} {sig : RequestSignature}

theorem asStr_injective : Function.Injective RelayWsMessageType.asStr := by
  intro a b
  cases a <;> cases b <;> decide

theorem bar_not_mem_asStr (t : RelayWsMessageType) : '|' ∉ t.asStr := by cases t <;> decide

/-- The signed text determines the frame and its number. -/
theorem wsSigningInput_inj {seq seq' : ℕ} {t t' : RelayWsMessageType} {p p' : List UInt8}
    (h : wsSigningInput C sig seq t p = wsSigningInput C sig seq' t' p') :
    seq = seq' ∧ t = t' ∧ p = p' := by
  have hbody := List.append_cancel_left h
  have hnonce := (first_field_inj (Uuid.bar_not_mem_toChars _) (Uuid.bar_not_mem_toChars _) hbody).2
  have hseq := (first_field_inj (Uuid.bar_not_mem_toChars _) (Uuid.bar_not_mem_toChars _) hnonce).2
  obtain ⟨hnumber, htype⟩ := first_field_inj (bar_not_mem_printNat _) (bar_not_mem_printNat _) hseq
  obtain ⟨hname, hhash⟩ := first_field_inj (bar_not_mem_asStr _) (bar_not_mem_asStr _) htype
  exact ⟨JsonText.printNat_injective hnumber, asStr_injective hname, contentHash_injective hhash⟩

/-- What an accepted input was. -/
theorem decode_ok {v v' : WsFrameVerifier PK} {raw : List UInt8} {frame : RelayWsFrame}
    (h : v.decode C K raw = (.ok frame, v')) :
    ∃ signature, WsStream.presented C K v.requestSignature raw =
        some (wsSigningInput C v.requestSignature (saturatingAdd v.inboundSeq 1) frame.msgType
          frame.payload, signature) ∧
      C.verify v.peerVerifyKey (wsSigningInput C v.requestSignature (saturatingAdd v.inboundSeq 1)
        frame.msgType frame.payload) signature = true ∧
      v' = { v with inboundSeq := saturatingAdd v.inboundSeq 1 } := by
  unfold WsFrameVerifier.decode at h
  split at h
  · cases h
  rename_i envelope hslice
  split at h
  · cases h
  split at h
  · cases h
  rename_i hseq
  rw [not_not] at hseq
  split at h
  · cases h
  rename_i payload hpayload
  split at h
  · cases h
  rename_i signature hsignature
  split at h
  · cases h
  split at h
  swap
  · cases h
  rename_i hverify
  obtain ⟨hframe, rfl⟩ := Prod.mk.inj h
  obtain rfl := Except.ok.inj hframe
  refine ⟨signature, ?_, hseq ▸ hverify, by rw [hseq]⟩
  simp only [WsStream.presented, hslice, hpayload, hsignature, Option.bind_eq_bind,
    Option.bind_some, ← hseq]
  rfl

/-- A rejected input leaves the verifier as it was. -/
theorem decode_error {v : WsFrameVerifier PK} {raw : List UInt8} {error : String}
    (h : (v.decode C K raw).1 = .error error) : (v.decode C K raw).2 = v := by
  unfold WsFrameVerifier.decode at h ⊢
  split
  · rfl
  rename_i envelope hslice
  simp only [hslice] at h
  split_ifs at h ⊢
  · rfl
  · rfl
  · split
    · rfl
    rename_i payload hpayload
    simp only [hpayload] at h
    split
    · rfl
    rename_i signature hsignature
    simp only [hsignature] at h
    split_ifs at h ⊢
    · rfl
    · rfl

theorem decode_signedEnvelope {v : WsFrameVerifier PK} {key : SK} {seq : ℕ} (frame : RelayWsFrame)
    (hkey : v.peerVerifyKey = C.publicKey key) (hseq : seq = saturatingAdd v.inboundSeq 1) :
    v.decode C K (signedEnvelope C K key v.requestSignature seq frame) =
      (.ok frame, { v with inboundSeq := seq }) := by
  have hmax : seq ≤ u64Max := hseq ▸ min_le_right _ _
  simp only [WsFrameVerifier.decode, signedEnvelope]
  rw [K.fromSlice_toVec _ (by simp [envelopeVersion]) hmax]
  simp only [Base64.decode_encode, C.sign_length, hkey, C.verify_sign, ← hseq, ne_eq,
    not_true_eq_false, if_false, if_true]

theorem presented_signedEnvelope {key : SK} {seq : ℕ} {frame : RelayWsFrame}
    (hmax : seq ≤ u64Max) :
    WsStream.presented C K sig (signedEnvelope C K key sig seq frame) =
      some (wsSigningInput C sig seq frame.msgType frame.payload,
        C.sign key (wsSigningInput C sig seq frame.msgType frame.payload)) := by
  simp only [WsStream.presented, signedEnvelope]
  rw [K.fromSlice_toVec _ (by simp [envelopeVersion]) hmax]
  simp only [Option.bind_eq_bind, Option.bind_some, Base64.decode_encode]
  rfl

/-- The verifier is in step with the signer: what it accepted are the first frames. -/
structure Aligned (C : RelayCrypto SK PK) (sig : RequestSignature) (s : WsStream SK PK) : Prop where
  signer : s.signer.requestSignature = sig
  verifier : s.verifier.requestSignature = sig
  outbound : s.signer.outboundSeq = s.encoded.length
  inbound : s.verifier.inboundSeq = s.accepted.length
  signed : ∀ text ∈ s.signed, ∃ i frame, s.encoded[i]? = some frame ∧
    text = wsSigningInput C sig (i + 1) frame.msgType frame.payload
  accepted : s.accepted <+: s.encoded

theorem saturatingAdd_lt {n : ℕ} (h : n < u64Max) : saturatingAdd n 1 = n + 1 := by
  unfold saturatingAdd
  omega

theorem Aligned.start (key : SK) : Aligned C sig (WsStream.start C sig key) :=
  ⟨rfl, rfl, rfl, rfl, by simp [WsStream.start], List.prefix_refl _⟩

theorem Aligned.encode {s : WsStream SK PK} (h : Aligned C sig s) (frame : RelayWsFrame)
    (hroom : s.encoded.length < u64Max) : Aligned C sig (s.step C K (.encode frame)) := by
  have hseq : saturatingAdd s.signer.outboundSeq 1 = s.encoded.length + 1 := by
    rw [h.outbound, saturatingAdd_lt hroom]
  refine ⟨h.signer, h.verifier, ?_, h.inbound, ?_, h.accepted.trans (List.prefix_append _ _)⟩
  · simp [WsStream.step, WsFrameSigner.encode, hseq]
  · intro text htext
    obtain htext | htext := List.mem_append.mp htext
    · obtain ⟨i, f, hf, heq⟩ := h.signed text htext
      exact ⟨i, f, List.getElem?_append_left (List.getElem?_eq_some_iff.mp hf).1 ▸ hf, heq⟩
    · refine ⟨s.encoded.length, frame, by simp [WsStream.step], ?_⟩
      rw [List.mem_singleton.mp htext]
      simp only [WsFrameSigner.encode, hseq, h.signer]

theorem Aligned.decode {s : WsStream SK PK} (h : Aligned C sig s) (raw : List UInt8)
    (hroom : s.encoded.length < u64Max) {rest : List WsEvent}
    (hforged : WsStream.Unforged C K s (.decode raw :: rest)) :
    Aligned C sig (s.step C K (.decode raw)) := by
  simp only [WsStream.step]
  split
  · rename_i frame verifier heq
    obtain ⟨signature, hpresented, hverify, rfl⟩ := decode_ok heq
    have htext := hforged.1 _ signature hpresented hverify
    obtain ⟨i, f, hf, hinput⟩ := h.signed _ htext
    have hle := h.accepted.length_le
    have hseq : saturatingAdd s.verifier.inboundSeq 1 = s.accepted.length + 1 := by
      rw [h.inbound, saturatingAdd_lt (by omega)]
    rw [h.verifier, hseq] at hinput
    obtain ⟨hi, htype, hpayload⟩ := wsSigningInput_inj hinput
    have hframe : s.encoded[s.accepted.length]? = some frame := by
      rw [Nat.add_right_cancel hi, hf]
      cases f
      cases frame
      simp_all
    refine ⟨h.signer, h.verifier, h.outbound, by simp [hseq], h.signed, ?_⟩
    obtain ⟨later, hlater⟩ := h.accepted
    rw [← hlater, List.getElem?_append_right (le_refl _), Nat.sub_self] at hframe
    cases later with
    | nil => cases hframe
    | cons g later =>
      obtain rfl := Option.some.inj hframe
      exact ⟨later, by simpa using hlater⟩
  · rename_i error verifier heq
    have hsame := decode_error (show (s.verifier.decode C K raw).1 = .error error by rw [heq])
    rw [heq] at hsame
    dsimp only at hsame
    subst hsame
    exact h

theorem encoded_run (s : WsStream SK PK) (events : List WsEvent) :
    (s.run C K events).encoded = s.encoded ++ encodedFrames events := by
  induction events generalizing s with
  | nil => simp [WsStream.run, encodedFrames]
  | cons event rest ih =>
    have hrest : s.run C K (event :: rest) = (s.step C K event).run C K rest := rfl
    rw [hrest, ih]
    cases event with
    | encode frame => simp [WsStream.step, encodedFrames]
    | decode raw =>
      have hkeep : (s.step C K (.decode raw)).encoded = s.encoded := by
        simp only [WsStream.step]
        split
        · rfl
        · rfl
      simp [hkeep, encodedFrames]

/-- Runs with fewer frames than sequence numbers stay aligned. -/
theorem Aligned.run {s : WsStream SK PK} {events : List WsEvent} (h : Aligned C sig s)
    (hroom : (s.encoded ++ encodedFrames events).length < u64Max)
    (hforged : WsStream.Unforged C K s events) : Aligned C sig (s.run C K events) := by
  induction events generalizing s with
  | nil => exact h
  | cons event rest ih =>
    have hstep := encoded_run (C := C) (K := K) s [event]
    cases event with
    | encode frame =>
      simp only [encodedFrames, List.filterMap_cons, List.length_append, List.length_cons] at hroom
      refine ih (h.encode frame (by omega)) ?_ hforged
      simp only [encodedFrames, WsStream.step, List.length_append, List.length_singleton]
      omega
    | decode raw =>
      simp only [encodedFrames, List.filterMap_cons, List.length_append] at hroom
      refine ih (h.decode raw (by omega) hforged) ?_ hforged.2
      have hkeep : (s.step C K (.decode raw)).encoded = s.encoded := by
        simpa [WsStream.run, encodedFrames] using hstep
      rw [hkeep, List.length_append]
      exact hroom

theorem run_append (s : WsStream SK PK) (before later : List WsEvent) :
    s.run C K (before ++ later) = (s.run C K before).run C K later :=
  List.foldl_append

theorem unforged_append (s : WsStream SK PK) (before later : List WsEvent) :
    WsStream.Unforged C K s (before ++ later) ↔
      WsStream.Unforged C K s before ∧ WsStream.Unforged C K (s.run C K before) later := by
  induction before generalizing s with
  | nil => exact ⟨fun h => ⟨trivial, h⟩, fun h => h.2⟩
  | cons event rest ih =>
    cases event with
    | encode frame => exact ih (s.step C K (.encode frame))
    | decode raw =>
      simp only [List.cons_append, WsStream.Unforged, ih, and_assoc]
      rfl

/-- Signatures of the signer, given to the verifier of the same connection. -/
structure Connected (C : RelayCrypto SK PK) (sig : RequestSignature) (key : SK)
    (s : WsStream SK PK) : Prop where
  verifier : s.verifier.requestSignature = sig
  key : s.verifier.peerVerifyKey = C.publicKey key

theorem genuine_step {s : WsStream SK PK} {key : SK} (h : Connected C sig key s) (seq : ℕ)
    (frame : RelayWsFrame) (hseq : seq = saturatingAdd s.verifier.inboundSeq 1)
    (hsigned : wsSigningInput C sig seq frame.msgType frame.payload ∈ s.signed) :
    WsStream.Unforged C K s [.decode (signedEnvelope C K key sig seq frame)] ∧
      s.step C K (.decode (signedEnvelope C K key sig seq frame)) =
        { s with
          verifier := { s.verifier with inboundSeq := seq }
          accepted := s.accepted ++ [frame] } := by
  have hdecode := decode_signedEnvelope (K := K) frame h.key hseq
  rw [h.verifier] at hdecode
  refine ⟨⟨?_, trivial⟩, ?_⟩
  · intro text signature hpresented _
    rw [h.verifier, presented_signedEnvelope (hseq ▸ min_le_right _ _)] at hpresented
    rw [← (Prod.mk.inj (Option.some.inj hpresented)).1]
    exact hsigned
  · simp only [WsStream.step, hdecode, h.verifier]

/-- A frame with another number than the next one is refused. -/
theorem refused_step {s : WsStream SK PK} {key : SK} (h : Connected C sig key s) {seq : ℕ}
    (frame : RelayWsFrame) (hmax : seq ≤ u64Max) (hseq : seq ≠ saturatingAdd s.verifier.inboundSeq 1)
    (hsigned : wsSigningInput C sig seq frame.msgType frame.payload ∈ s.signed) :
    WsStream.Unforged C K s [.decode (signedEnvelope C K key sig seq frame)] ∧
      s.step C K (.decode (signedEnvelope C K key sig seq frame)) = s := by
  constructor
  · refine ⟨fun text signature hpresented _ => ?_, trivial⟩
    rw [h.verifier, presented_signedEnvelope hmax] at hpresented
    rw [← (Prod.mk.inj (Option.some.inj hpresented)).1]
    exact hsigned
  · simp only [WsStream.step, WsFrameVerifier.decode, signedEnvelope]
    rw [K.fromSlice_toVec _ (by simp [envelopeVersion]) hmax]
    simp only [ne_eq, not_true_eq_false, if_false, hseq, not_false_eq_true, if_true]

/-- Frames delivered in order are accepted, as long as there are sequence numbers. -/
theorem deliver_run {s : WsStream SK PK} {key : SK} (h : Connected C sig key s) {n : ℕ}
    (hinbound : s.verifier.inboundSeq = n) {frames : List RelayWsFrame}
    (hroom : n + frames.length ≤ u64Max)
    (hsigned : ∀ i frame, frames[i]? = some frame →
      wsSigningInput C sig (n + i + 1) frame.msgType frame.payload ∈ s.signed) :
    WsStream.Unforged C K s ((encodeAll C K ⟨sig, n, key⟩ frames).map .decode) ∧
      s.run C K ((encodeAll C K ⟨sig, n, key⟩ frames).map .decode) =
        { s with
          verifier := { s.verifier with inboundSeq := n + frames.length }
          accepted := s.accepted ++ frames } := by
  induction frames generalizing s n with
  | nil =>
    refine ⟨trivial, ?_⟩
    obtain ⟨signer, ⟨requestSignature, inboundSeq, peerVerifyKey⟩, encoded, signed, accepted⟩ := s
    simp only at hinbound
    simp [encodeAll, WsStream.run, hinbound]
  | cons frame rest ih =>
    rw [List.length_cons] at hroom
    have hseq : saturatingAdd n 1 = n + 1 := saturatingAdd_lt (by omega)
    obtain ⟨hone, hstep⟩ := genuine_step (K := K) h (n + 1) frame (by rw [hinbound, hseq])
      (hsigned 0 frame rfl)
    have hmap : (encodeAll C K ⟨sig, n, key⟩ (frame :: rest)).map WsEvent.decode =
        .decode (signedEnvelope C K key sig (n + 1) frame) ::
          (encodeAll C K ⟨sig, n + 1, key⟩ rest).map .decode := by
      simp only [encodeAll, WsFrameSigner.encode, hseq, List.map_cons]
    obtain ⟨hrest, hrun⟩ := ih (s := s.step C K (.decode (signedEnvelope C K key sig (n + 1) frame)))
      (n := n + 1) (by rw [hstep]; exact ⟨h.verifier, h.key⟩) (by rw [hstep]) (by omega)
      (fun i f hf => by
        rw [hstep]
        have := hsigned (i + 1) f hf
        rwa [show n + (i + 1) + 1 = n + 1 + i + 1 by omega] at this)
    rw [hmap]
    refine ⟨⟨hone.1, hrest⟩, ?_⟩
    have hcons : s.run C K (.decode (signedEnvelope C K key sig (n + 1) frame) ::
        (encodeAll C K ⟨sig, n + 1, key⟩ rest).map .decode) =
        (s.step C K (.decode (signedEnvelope C K key sig (n + 1) frame))).run C K
          ((encodeAll C K ⟨sig, n + 1, key⟩ rest).map .decode) := rfl
    rw [hcons, hrun, hstep]
    simp only [List.append_assoc, List.singleton_append, List.length_cons]
    rw [show n + 1 + rest.length = n + (rest.length + 1) by omega]

/-- A frame with the last sequence number is accepted again and again. -/
theorem replay_run (s : WsStream SK PK) {key : SK} (h : Connected C sig key s)
    (hinbound : s.verifier.inboundSeq = u64Max) {frame : RelayWsFrame}
    (hsigned : wsSigningInput C sig u64Max frame.msgType frame.payload ∈ s.signed) (times : ℕ) :
    WsStream.Unforged C K s
        (List.replicate times (.decode (signedEnvelope C K key sig u64Max frame))) ∧
      s.run C K (List.replicate times (.decode (signedEnvelope C K key sig u64Max frame))) =
        { s with accepted := s.accepted ++ List.replicate times frame } := by
  induction times generalizing s with
  | zero => exact ⟨trivial, by simp [WsStream.run]⟩
  | succ times ih =>
    have hseq : u64Max = saturatingAdd s.verifier.inboundSeq 1 := by
      rw [hinbound, saturatingAdd]
      omega
    obtain ⟨hone, hstep⟩ := genuine_step (K := K) h u64Max frame hseq hsigned
    have hsame : ({ s.verifier with inboundSeq := u64Max } : WsFrameVerifier PK) = s.verifier := by
      rw [← hinbound]
    rw [hsame] at hstep
    obtain ⟨hrest, hrun⟩ := ih (s.step C K (.decode (signedEnvelope C K key sig u64Max frame)))
      (by rw [hstep]; exact ⟨h.verifier, h.key⟩) (by rw [hstep]; exact hinbound)
      (by rw [hstep]; exact hsigned)
    rw [List.replicate_succ]
    refine ⟨⟨hone.1, hrest⟩, ?_⟩
    have hcons : s.run C K (.decode (signedEnvelope C K key sig u64Max frame) ::
        List.replicate times (.decode (signedEnvelope C K key sig u64Max frame))) =
        (s.step C K (.decode (signedEnvelope C K key sig u64Max frame))).run C K
          (List.replicate times (.decode (signedEnvelope C K key sig u64Max frame))) := rfl
    rw [hcons, hrun, hstep]
    simp [List.replicate_succ]

theorem encode_run {s : WsStream SK PK} (frames : List RelayWsFrame) :
    WsStream.Unforged C K s (frames.map .encode) ∧
      (s.run C K (frames.map .encode)).verifier = s.verifier ∧
      (s.run C K (frames.map .encode)).accepted = s.accepted ∧
      (∀ text ∈ s.signed, text ∈ (s.run C K (frames.map .encode)).signed) ∧
      ∀ i frame, frames[i]? = some frame → s.signer.outboundSeq + i < u64Max →
        wsSigningInput C s.signer.requestSignature (s.signer.outboundSeq + i + 1) frame.msgType
          frame.payload ∈ (s.run C K (frames.map .encode)).signed := by
  induction frames generalizing s with
  | nil => exact ⟨trivial, rfl, rfl, fun _ h => h, by simp⟩
  | cons first rest ih =>
    obtain ⟨hunforged, hverifier, haccepted, hkept, hnew⟩ := ih (s := s.step C K (.encode first))
    refine ⟨hunforged, hverifier, haccepted,
      fun text h => hkept text (List.mem_append_left _ h), ?_⟩
    intro i frame hframe hroom
    cases i with
    | zero =>
      obtain rfl := Option.some.inj hframe
      apply hkept
      refine List.mem_append_right _ ?_
      simp only [WsFrameSigner.encode, saturatingAdd_lt (show s.signer.outboundSeq < u64Max by omega),
        Nat.add_zero, List.mem_singleton]
    | succ i =>
      have hseq : (s.step C K (.encode first)).signer.outboundSeq = s.signer.outboundSeq + 1 :=
        saturatingAdd_lt (by omega)
      have hmem := hnew i frame hframe (by rw [hseq]; omega)
      rw [hseq, show s.signer.outboundSeq + 1 + i + 1 = s.signer.outboundSeq + (i + 1) + 1 by omega]
        at hmem
      exact hmem

theorem decodeAll_encodeAll {v : WsFrameVerifier PK} {key : SK}
    (hkey : v.peerVerifyKey = C.publicKey key) {frames : List RelayWsFrame}
    (hroom : v.inboundSeq + frames.length ≤ u64Max) :
    decodeAll C K v (encodeAll C K ⟨v.requestSignature, v.inboundSeq, key⟩ frames) =
      frames.map .ok := by
  induction frames generalizing v with
  | nil => rfl
  | cons frame rest ih =>
    rw [List.length_cons] at hroom
    have hseq : saturatingAdd v.inboundSeq 1 = v.inboundSeq + 1 := saturatingAdd_lt (by omega)
    have hdecode := decode_signedEnvelope (C := C) (K := K) frame hkey hseq.symm
    simp only [encodeAll, WsFrameSigner.encode, hseq, decodeAll, hdecode, List.map_cons]
    congr 1
    exact ih (v := { v with inboundSeq := v.inboundSeq + 1 }) hkey (by dsimp only; omega)

/-- All frames are encoded, the numbered ones delivered in order, and the last of these replayed
until more frames are accepted than were encoded. -/
def overrun (C : RelayCrypto SK PK) (K : EnvelopeCodec) (sig : RequestSignature) (key : SK)
    (frames : List RelayWsFrame) (last : RelayWsFrame) : List WsEvent :=
  frames.map .encode ++ ((encodeAll C K ⟨sig, 0, key⟩ (frames.take u64Max)).map .decode ++
    List.replicate (frames.length - u64Max + 1)
      (.decode (signedEnvelope C K key sig u64Max last)))

theorem encodedFrames_overrun (C : RelayCrypto SK PK) (K : EnvelopeCodec) (sig : RequestSignature)
    (key : SK) (frames : List RelayWsFrame) (last : RelayWsFrame) :
    encodedFrames (overrun C K sig key frames last) = frames := by
  unfold overrun encodedFrames
  rw [List.filterMap_append, List.filterMap_append, List.filterMap_map, List.filterMap_map]
  have hencode : frames.filterMap ((fun | .encode frame => some frame | .decode _ => none) ∘
      WsEvent.encode) = frames := by
    rw [show ((fun | .encode frame => some frame | .decode _ => none) ∘ WsEvent.encode) =
      (some : RelayWsFrame → Option RelayWsFrame) from rfl, List.filterMap_some]
  rw [hencode]
  simp

theorem overrun_accepts (C : RelayCrypto SK PK) (K : EnvelopeCodec) (sig : RequestSignature)
    (key : SK) {frames : List RelayWsFrame} {last : RelayWsFrame}
    (hlast : frames[u64Max - 1]? = some last) :
    WsStream.Unforged C K (.start C sig key) (overrun C K sig key frames last) ∧
      (WsStream.run C K (.start C sig key) (overrun C K sig key frames last)).accepted.length =
        frames.length + 1 := by
  have hlength := (List.getElem?_eq_some_iff.mp hlast).1
  have hpos : 0 < u64Max := by decide
  obtain ⟨hencode, hverifier, haccepted, _, hsigned⟩ :=
    encode_run (C := C) (K := K) (s := .start C sig key) frames
  have hzero : (WsStream.start C sig key : WsStream SK PK).signer.outboundSeq = 0 := rfl
  have htake : (frames.take u64Max).length = u64Max := by
    rw [List.length_take]
    omega
  have hconnected : Connected C sig key
      (WsStream.run C K (.start C sig key) (frames.map .encode)) :=
    ⟨by rw [hverifier]; rfl, by rw [hverifier]; rfl⟩
  have htaken : ∀ i frame, (frames.take u64Max)[i]? = some frame →
      wsSigningInput C sig (0 + i + 1) frame.msgType frame.payload ∈
        (WsStream.run C K (.start C sig key) (frames.map .encode)).signed := by
    intro i frame hframe
    have hi := (List.getElem?_eq_some_iff.mp hframe).1
    rw [List.getElem?_take_of_lt (by omega)] at hframe
    have hmem := hsigned i frame hframe (by rw [hzero]; omega)
    rw [hzero] at hmem
    exact hmem
  obtain ⟨hdeliver, hdelivered⟩ := deliver_run (K := K) hconnected (n := 0)
    (by rw [hverifier]; rfl) (by omega) htaken
  have hsignedLast : wsSigningInput C sig u64Max last.msgType last.payload ∈
      (WsStream.run C K (.start C sig key) (frames.map .encode)).signed := by
    have hmem := hsigned (u64Max - 1) last hlast (by rw [hzero]; omega)
    rw [hzero, show 0 + (u64Max - 1) + 1 = u64Max by omega] at hmem
    exact hmem
  obtain ⟨hreplay, hreplayed⟩ := replay_run (K := K)
    ((WsStream.run C K (.start C sig key) (frames.map .encode)).run C K
      ((encodeAll C K ⟨sig, 0, key⟩ (frames.take u64Max)).map .decode))
    (show Connected C sig key _ by rw [hdelivered]; exact ⟨hconnected.verifier, hconnected.key⟩)
    (by rw [hdelivered, htake]; simp) (by rw [hdelivered]; exact hsignedLast)
    (frames.length - u64Max + 1)
  constructor
  · rw [overrun, unforged_append, unforged_append]
    exact ⟨hencode, hdeliver, hreplay⟩
  · rw [overrun, run_append, run_append, hreplayed, hdelivered]
    simp only [List.length_append, haccepted, List.length_replicate, htake]
    simp only [WsStream.start, List.length_nil]
    omega

theorem overrun_not_prefix (C : RelayCrypto SK PK) (K : EnvelopeCodec) (sig : RequestSignature)
    (key : SK) {frames : List RelayWsFrame} {last : RelayWsFrame}
    (hlast : frames[u64Max - 1]? = some last) :
    WsStream.Unforged C K (.start C sig key) (overrun C K sig key frames last) ∧
      ¬ (WsStream.run C K (.start C sig key) (overrun C K sig key frames last)).accepted <+:
        (WsStream.run C K (.start C sig key) (overrun C K sig key frames last)).encoded := by
  obtain ⟨hforged, haccepted⟩ := overrun_accepts C K sig key hlast
  refine ⟨hforged, fun hprefix => ?_⟩
  have hle := hprefix.length_le
  rw [encoded_run, encodedFrames_overrun, haccepted] at hle
  simp [WsStream.start] at hle

/-- What is accepted is a prefix of what was encoded, whatever the inputs, exactly when fewer
frames are encoded than there are sequence numbers. A rejected input changes nothing, and frames
that arrive in order are all accepted. -/
theorem ws_stream_integrity (C : RelayCrypto SK PK) (K : EnvelopeCodec) (sig : RequestSignature)
    (key : SK) :
    (∀ frames, (∀ events, encodedFrames events = frames →
        WsStream.Unforged C K (.start C sig key) events → ∀ before, before <+: events →
          (WsStream.run C K (.start C sig key) before).accepted <+:
            (WsStream.run C K (.start C sig key) before).encoded) ↔
      frames.length < u64Max) ∧
    (∀ (v : WsFrameVerifier PK) raw error, (v.decode C K raw).1 = .error error →
      (v.decode C K raw).2 = v) ∧
    ∀ frames : List RelayWsFrame, frames.length < u64Max →
      decodeAll C K (.new sig (C.publicKey key)) (encodeAll C K (.new sig key) frames) =
        frames.map .ok := by
  refine ⟨fun frames => ⟨fun h => ?_, fun h events hevents hforged before hbefore => ?_⟩,
    fun v raw error h => decode_error h, fun frames h => ?_⟩
  · by_contra hmany
    have hpos : 0 < u64Max := by decide
    obtain ⟨last, hlast⟩ : ∃ last, frames[u64Max - 1]? = some last :=
      ⟨_, List.getElem?_eq_getElem (by omega)⟩
    obtain ⟨hforged, hnot⟩ := overrun_not_prefix C K sig key hlast
    exact hnot (h _ (encodedFrames_overrun C K sig key frames last) hforged _ (List.prefix_refl _))
  · obtain ⟨later, rfl⟩ := hbefore
    have hroom : ((WsStream.start C sig key : WsStream SK PK).encoded ++
        encodedFrames before).length < u64Max := by
      have hsplit : encodedFrames (before ++ later) =
          encodedFrames before ++ encodedFrames later := List.filterMap_append
      rw [← hevents, hsplit, List.length_append] at h
      simp only [WsStream.start, List.nil_append]
      omega
    exact ((Aligned.start key).run hroom ((unforged_append _ before later).mp hforged).1).accepted
  · exact decodeAll_encodeAll (v := .new sig (C.publicKey key)) rfl
      (by simp only [WsFrameVerifier.new]; omega)

section Fixture

instance : Encodable RelayWsMessageType :=
  Encodable.ofLeftInverse
    (fun t => [.text, .binary, .ping, .pong, .close].idxOf t)
    (fun n => ([.text, .binary, .ping, .pong, .close] : List RelayWsMessageType).getD n .text)
    (by intro t; cases t <;> rfl)

instance : Encodable SignedWsEnvelope :=
  Encodable.ofLeftInverse
    (fun e => (e.version, e.seq, e.msgType, e.payloadB64, e.signatureB64))
    (fun (version, seq, msgType, payload, signature) => ⟨version, seq, msgType, payload, signature⟩)
    fun _ => rfl

def hello : RelayWsFrame := ⟨.text, [104, 101, 108, 108, 111]⟩

def nilSignature : RequestSignature := ⟨.nil, 0, .nil, ""⟩

def helloDigest : List UInt8 :=
  [44, 242, 77, 186, 95, 176, 163, 14, 38, 232, 59, 42, 197, 185, 226, 158, 27, 22, 30, 92, 31, 167,
    66, 94, 115, 4, 51, 98, 147, 139, 152, 36]

def helloText : List Char :=
  ("v1|00000000-0000-0000-0000-000000000000|00000000-0000-0000-0000-000000000000|1|text|" ++
    "LPJNul+wow4m6DsqxbninhsWHlwfp0JecwQzYpOLmCQ=").toList

/-- The signature of the text above by the key of 32 bytes 7. -/
def helloSignature : List UInt8 :=
  [19, 133, 32, 51, 166, 213, 165, 11, 146, 121, 183, 163, 126, 29, 220, 211, 189, 209, 16, 88, 216,
    146, 185, 93, 66, 35, 31, 202, 61, 9, 60, 230, 156, 132, 173, 222, 222, 73, 156, 92, 49, 16, 93,
    99, 169, 193, 69, 59, 107, 68, 248, 98, 199, 78, 159, 46, 103, 229, 179, 205, 15, 119, 207, 0]

def helloEnvelope : SignedWsEnvelope :=
  ⟨1, 1, .text, "aGVsbG8=",
    "E4UgM6bVpQuSebejfh3c073REFjYkrldQiMfyj0JPOachK3e3kmcXDEQXWOpwUU7a0T4YsdOny5n5bPND3fPAA=="⟩

/-- The JSON of the envelope, its members in the order of their declaration. -/
def helloRaw : List UInt8 :=
  [123, 34, 118, 101, 114, 115, 105, 111, 110, 34, 58, 49, 44, 34, 115, 101, 113, 34, 58, 49, 44, 34,
    109, 115, 103, 95, 116, 121, 112, 101, 34, 58, 34, 116, 101, 120, 116, 34, 44, 34, 112, 97, 121,
    108, 111, 97, 100, 95, 98, 54, 52, 34, 58, 34, 97, 71, 86, 115, 98, 71, 56, 61, 34, 44, 34, 115,
    105, 103, 110, 97, 116, 117, 114, 101, 95, 98, 54, 52, 34, 58, 34, 69, 52, 85, 103, 77, 54, 98,
    86, 112, 81, 117, 83, 101, 98, 101, 106, 102, 104, 51, 99, 48, 55, 51, 82, 69, 70, 106, 89, 107,
    114, 108, 100, 81, 105, 77, 102, 121, 106, 48, 74, 80, 79, 97, 99, 104, 75, 51, 101, 51, 107, 109,
    99, 88, 68, 69, 81, 88, 87, 79, 112, 119, 85, 85, 55, 97, 48, 84, 52, 89, 115, 100, 79, 110, 121,
    53, 110, 53, 98, 80, 78, 68, 51, 102, 80, 65, 65, 61, 61, 34, 125]

/-- A ping without content, as the second frame. -/
def ping : RelayWsFrame := ⟨.ping, []⟩

def pingDigest : List UInt8 :=
  [227, 176, 196, 66, 152, 252, 28, 20, 154, 251, 244, 200, 153, 111, 185, 36, 39, 174, 65, 228, 100,
    155, 147, 76, 164, 149, 153, 27, 120, 82, 184, 85]

def pingText : List Char :=
  ("v1|00000000-0000-0000-0000-000000000000|00000000-0000-0000-0000-000000000000|2|ping|" ++
    "47DEQpj8HBSa+/TImW+5JCeuQeRkm5NMpJWZG3hSuFU=").toList

def pingSignature : List UInt8 :=
  [36, 139, 33, 229, 202, 251, 139, 194, 207, 188, 194, 191, 122, 224, 1, 205, 41, 112, 1, 137, 153,
    204, 209, 225, 142, 44, 103, 111, 157, 217, 160, 5, 22, 92, 179, 94, 10, 203, 103, 147, 85, 119,
    174, 163, 75, 232, 184, 184, 152, 34, 5, 47, 167, 173, 3, 231, 72, 36, 146, 134, 110, 136, 245, 2]

def pingEnvelope : SignedWsEnvelope :=
  ⟨1, 2, .ping, "",
    "JIsh5cr7i8LPvMK/euABzSlwAYmZzNHhjixnb53ZoAUWXLNeCstnk1V3rqNL6Li4mCIFL6etA+dIJJKGboj1Ag=="⟩

def pingRaw : List UInt8 :=
  [123, 34, 118, 101, 114, 115, 105, 111, 110, 34, 58, 49, 44, 34, 115, 101, 113, 34, 58, 50, 44, 34,
    109, 115, 103, 95, 116, 121, 112, 101, 34, 58, 34, 112, 105, 110, 103, 34, 44, 34, 112, 97, 121,
    108, 111, 97, 100, 95, 98, 54, 52, 34, 58, 34, 34, 44, 34, 115, 105, 103, 110, 97, 116, 117, 114,
    101, 95, 98, 54, 52, 34, 58, 34, 74, 73, 115, 104, 53, 99, 114, 55, 105, 56, 76, 80, 118, 77, 75,
    47, 101, 117, 65, 66, 122, 83, 108, 119, 65, 89, 109, 90, 122, 78, 72, 104, 106, 105, 120, 110, 98,
    53, 51, 90, 111, 65, 85, 87, 88, 76, 78, 101, 67, 115, 116, 110, 107, 49, 86, 51, 114, 113, 78, 76,
    54, 76, 105, 52, 109, 67, 73, 70, 76, 54, 101, 116, 65, 43, 100, 73, 74, 74, 75, 71, 98, 111, 106,
    49, 65, 103, 61, 61, 34, 125]

def sampleCrypto : RelayCrypto Unit Unit :=
  knownCrypto [(hello.payload, helloDigest), (ping.payload, pingDigest)]
    [(helloText, helloSignature), (pingText, pingSignature)] (by decide) (by decide) (by decide)

/-- The usual JSON for the envelopes above, and other bytes elsewhere. -/
def sampleEnvelopes : EnvelopeCodec where
  toVec := writeKnown [(helloEnvelope, helloRaw), (pingEnvelope, pingRaw)] (marks 0)
  fromSlice := readKnown [(helloEnvelope, helloRaw), (pingEnvelope, pingRaw)] markCount
  fromSlice_toVec envelope _ _ := by
    have hmark : ∀ entry ∈ [(helloEnvelope, helloRaw), (pingEnvelope, pingRaw)],
        entry.2.head? ≠ some 0 := by decide
    apply readKnown_writeKnown (by decide)
    · exact fun entry hentry => marks_ne (hmark entry hentry)
    · exact markCount_marks 0

theorem helloText_input :
    wsSigningInput sampleCrypto nilSignature 1 hello.msgType hello.payload = helloText := by
  unfold wsSigningInput helloText
  rw [String.toList_append]
  repeat rw [String.toList_ofList]
  decide +kernel

theorem pingText_input :
    wsSigningInput sampleCrypto nilSignature 2 ping.msgType ping.payload = pingText := by
  unfold wsSigningInput pingText
  rw [String.toList_append]
  repeat rw [String.toList_ofList]
  decide +kernel

theorem pingText_ne : pingText ≠ helloText := by
  rw [← pingText_input, ← helloText_input]
  intro h
  exact absurd (wsSigningInput_inj h).1 (by decide)

theorem helloRaw_signed :
    signedEnvelope sampleCrypto sampleEnvelopes () nilSignature 1 hello = helloRaw := by
  have hsign : sampleCrypto.sign () helloText = helloSignature :=
    knownCrypto_sign List.lookup_cons_self
  have hpayload : Base64.encode hello.payload = helloEnvelope.payloadB64 :=
    congrArg String.ofList (by decide +kernel)
  have hsignature : Base64.encode helloSignature = helloEnvelope.signatureB64 :=
    congrArg String.ofList (by decide +kernel)
  have hvec : sampleEnvelopes.toVec helloEnvelope = helloRaw := by
    change writeKnown [(helloEnvelope, helloRaw), (pingEnvelope, pingRaw)] (marks 0) helloEnvelope = _
    apply writeKnown_lookup
    exact List.lookup_cons_self
  simp only [signedEnvelope, helloText_input, hsign, hpayload, hsignature]
  exact hvec

theorem pingText_signed : sampleCrypto.sign () pingText = pingSignature := by
  apply knownCrypto_sign
  rw [List.lookup_cons, beq_eq_false_iff_ne.mpr pingText_ne]
  exact List.lookup_cons_self

theorem pingEnvelope_vec : sampleEnvelopes.toVec pingEnvelope = pingRaw := by
  have hother : pingEnvelope ≠ helloEnvelope := fun h =>
    absurd (congrArg SignedWsEnvelope.seq h) (by decide)
  change writeKnown [(helloEnvelope, helloRaw), (pingEnvelope, pingRaw)] (marks 0) pingEnvelope = _
  apply writeKnown_lookup
  rw [List.lookup_cons, beq_eq_false_iff_ne.mpr hother]
  exact List.lookup_cons_self

theorem pingRaw_signed :
    signedEnvelope sampleCrypto sampleEnvelopes () nilSignature 2 ping = pingRaw := by
  have hpayload : Base64.encode ping.payload = pingEnvelope.payloadB64 :=
    congrArg String.ofList (by decide +kernel)
  have hsignature : Base64.encode pingSignature = pingEnvelope.signatureB64 :=
    congrArg String.ofList (by decide +kernel)
  simp only [signedEnvelope, pingText_input, pingText_signed, hpayload, hsignature]
  exact pingEnvelope_vec

/-- As many frames as there are sequence numbers are delivered in order, and the last one again. -/
theorem ws_stream_overrun :
    encodedFrames (overrun sampleCrypto sampleEnvelopes nilSignature ()
        (List.replicate u64Max hello) hello) = List.replicate u64Max hello ∧
      WsStream.Unforged sampleCrypto sampleEnvelopes (.start sampleCrypto nilSignature ())
        (overrun sampleCrypto sampleEnvelopes nilSignature () (List.replicate u64Max hello) hello) ∧
      ¬ (WsStream.run sampleCrypto sampleEnvelopes (.start sampleCrypto nilSignature ())
          (overrun sampleCrypto sampleEnvelopes nilSignature () (List.replicate u64Max hello)
            hello)).accepted <+:
        (WsStream.run sampleCrypto sampleEnvelopes (.start sampleCrypto nilSignature ())
          (overrun sampleCrypto sampleEnvelopes nilSignature () (List.replicate u64Max hello)
            hello)).encoded := by
  have hlast : (List.replicate u64Max hello)[u64Max - 1]? = some hello :=
    List.getElem?_replicate_of_lt (by decide)
  constructor
  · apply encodedFrames_overrun
  · apply overrun_not_prefix
    exact hlast

/-- Two frames are encoded; the second one arrives first, then the first one twice. -/
def reordered : List WsEvent :=
  [.encode hello, .encode ping, .decode pingRaw, .decode helloRaw, .decode helloRaw, .decode pingRaw]

theorem reordered_accepted :
    WsStream.Unforged sampleCrypto sampleEnvelopes (.start sampleCrypto nilSignature ()) reordered ∧
      (WsStream.run sampleCrypto sampleEnvelopes (.start sampleCrypto nilSignature ())
        reordered).accepted = [hello, ping] := by
  let sent (n : ℕ) (accepted : List RelayWsFrame) : WsStream Unit Unit :=
    ⟨⟨nilSignature, 2, ()⟩, ⟨nilSignature, n, ()⟩, [hello, ping], [helloText, pingText], accepted⟩
  have hsent : WsStream.run sampleCrypto sampleEnvelopes (.start sampleCrypto nilSignature ())
      [.encode hello, .encode ping] = sent 0 [] := by
    have hone : saturatingAdd 0 1 = 1 := saturatingAdd_lt (by decide)
    have htwo : saturatingAdd 1 1 = 2 := saturatingAdd_lt (by decide)
    simp only [WsStream.run, List.foldl_cons, List.foldl_nil, WsStream.step, WsStream.start,
      WsFrameSigner.new, WsFrameSigner.encode, hone, htwo, helloText_input, pingText_input]
    rfl
  have hconnected : ∀ n accepted, Connected sampleCrypto nilSignature () (sent n accepted) :=
    fun _ _ => ⟨rfl, rfl⟩
  have hhello : ∀ n accepted, wsSigningInput sampleCrypto nilSignature 1 hello.msgType hello.payload ∈
      (sent n accepted).signed := by
    intro n accepted
    rw [helloText_input]
    exact List.mem_cons_self
  have hping : ∀ n accepted, wsSigningInput sampleCrypto nilSignature 2 ping.msgType ping.payload ∈
      (sent n accepted).signed := by
    intro n accepted
    rw [pingText_input]
    exact List.mem_cons_of_mem _ List.mem_cons_self
  obtain ⟨hforged₁, hstep₁⟩ := refused_step (K := sampleEnvelopes) (hconnected 0 []) ping (by decide)
    (by rw [saturatingAdd_lt (by decide)]; decide) (hping 0 [])
  obtain ⟨hforged₂, hstep₂⟩ := genuine_step (K := sampleEnvelopes) (hconnected 0 []) 1 hello
    (saturatingAdd_lt (by decide)).symm (hhello 0 [])
  obtain ⟨hforged₃, hstep₃⟩ := refused_step (K := sampleEnvelopes) (hconnected 1 [hello]) hello
    (by decide) (by rw [saturatingAdd_lt (by decide)]; decide) (hhello 1 [hello])
  obtain ⟨hforged₄, hstep₄⟩ := genuine_step (K := sampleEnvelopes) (hconnected 1 [hello]) 2 ping
    (saturatingAdd_lt (by decide)).symm (hping 1 [hello])
  rw [helloRaw_signed] at hforged₂ hstep₂ hforged₃ hstep₃
  rw [pingRaw_signed] at hforged₁ hstep₁ hforged₄ hstep₄
  have hfirst : (sent 0 []).step sampleCrypto sampleEnvelopes (.decode helloRaw) = sent 1 [hello] :=
    hstep₂
  have hsecond : (sent 1 [hello]).step sampleCrypto sampleEnvelopes (.decode pingRaw) =
      sent 2 [hello, ping] := hstep₄
  have hsplit : reordered = [.encode hello, .encode ping] ++
      [.decode pingRaw, .decode helloRaw, .decode helloRaw, .decode pingRaw] := rfl
  constructor
  · rw [hsplit, unforged_append, hsent]
    refine ⟨trivial, hforged₁.1, ?_⟩
    rw [hstep₁]
    refine ⟨hforged₂.1, ?_⟩
    rw [hfirst]
    refine ⟨hforged₃.1, ?_⟩
    rw [hstep₃]
    exact hforged₄
  · rw [hsplit, run_append, hsent, WsStream.run, List.foldl_cons, hstep₁, List.foldl_cons, hfirst,
      List.foldl_cons, hstep₃, List.foldl_cons, hsecond]
    rfl

/-- Neither the early frame nor the repeated one is accepted. -/
theorem ws_stream_integrity_reordered :
    (∀ before, before <+: reordered →
      (WsStream.run sampleCrypto sampleEnvelopes (.start sampleCrypto nilSignature ())
          before).accepted <+:
        (WsStream.run sampleCrypto sampleEnvelopes (.start sampleCrypto nilSignature ())
          before).encoded) ∧
      (WsStream.run sampleCrypto sampleEnvelopes (.start sampleCrypto nilSignature ())
        reordered).accepted = [hello, ping] ∧
      decodeAll sampleCrypto sampleEnvelopes (.new nilSignature ()) [helloRaw, pingRaw] =
        [.ok hello, .ok ping] := by
  obtain ⟨hwhole, _, horder⟩ := ws_stream_integrity sampleCrypto sampleEnvelopes nilSignature ()
  refine ⟨?_, reordered_accepted.2, ?_⟩
  · have hevents : encodedFrames reordered = [hello, ping] := by
      simp [encodedFrames, reordered]
    have hfew : [hello, ping].length < u64Max := by
      simp only [List.length_cons, List.length_nil, u64Max]
      omega
    intro before hbefore
    exact (hwhole [hello, ping]).mpr hfew reordered hevents reordered_accepted.1 before hbefore
  · have hall := horder [hello, ping] (by decide)
    have hone : saturatingAdd 0 1 = 1 := saturatingAdd_lt (by decide)
    have htwo : saturatingAdd 1 1 = 2 := saturatingAdd_lt (by decide)
    simp only [encodeAll, WsFrameSigner.encode, WsFrameSigner.new, hone, htwo, helloRaw_signed,
      pingRaw_signed, List.map_cons, List.map_nil] at hall
    exact hall

end Fixture

end VibeKanban.Relay
