import Mathlib.Data.List.Sort
import VibeKanban.Relay.WsFrames

/-! The signing sessions of a relay server: which signed requests it accepts. A call reads both
clocks at one moment, in nanoseconds; the wall clock is the monotonic one from a fixed origin. -/
namespace VibeKanban.Relay
open Lib

structure RelaySigningSession (PK : Type) where
  peerPublicKey : PK
  createdAt : ℕ
  lastUsedAt : ℕ
  seenNonces : List (Uuid × ℕ)

inductive RelaySignatureValidationError where
  | timestampOutOfDrift | missingSigningSession | replayNonce | invalidSignature
  deriving DecidableEq, Repr

def nanosPerSec : ℕ := 1000000000
def relaySignatureMaxTimestampDriftSecs : ℤ := 30
def relaySigningSessionTtl : ℕ := 60 * 60 * nanosPerSec
def relaySigningSessionIdleTtl : ℕ := 15 * 60 * nanosPerSec
def relayNonceTtl : ℕ := 2 * 60 * nanosPerSec

def i64Max : ℤ := 2 ^ 63 - 1

def i64SaturatingSub (a b : ℤ) : ℤ := max (-2 ^ 63) (min i64Max (a - b))

abbrev Sessions (PK : Type) := List (Uuid × RelaySigningSession PK)

variable {SK PK : Type} (C : RelayCrypto SK PK) (origin : ℕ)

def wallSecs (now : ℕ) : ℤ := ((origin + now) / nanosPerSec : ℕ)

def validateTimestamp (now : ℕ) (timestamp : ℤ) : Except RelaySignatureValidationError Unit :=
  if wallSecs origin now > i64Max then .error .timestampOutOfDrift
  else if |i64SaturatingSub (wallSecs origin now) timestamp| > relaySignatureMaxTimestampDriftSecs then
    .error .timestampOutOfDrift
  else .ok ()

def parseSignatureB64 (signatureB64 : String) : Except RelaySignatureValidationError (List UInt8) :=
  match Base64.decode signatureB64 with
  | none => .error .invalidSignature
  | some bytes => if bytes.length = 64 then .ok bytes else .error .invalidSignature

def RelaySigningSession.alive (now : ℕ) (session : RelaySigningSession PK) : Bool :=
  now - session.createdAt ≤ relaySigningSessionTtl && now - session.lastUsedAt ≤ relaySigningSessionIdleTtl

def RelaySigningSession.dropNonces (now : ℕ) (session : RelaySigningSession PK) :
    RelaySigningSession PK :=
  { session with seenNonces := session.seenNonces.filter fun seen => now - seen.2 ≤ relayNonceTtl }

def RelaySigningSession.accept (now : ℕ) (nonce : Uuid) (session : RelaySigningSession PK) :
    RelaySigningSession PK :=
  { session with
    seenNonces := (session.seenNonces.filter fun seen => seen.1 ≠ nonce) ++ [(nonce, now)]
    lastUsedAt := now }

/-- `retain` of the sessions that have not expired. -/
def retainSessions (now : ℕ) (sessions : Sessions PK) : Sessions PK :=
  sessions.filter fun entry => entry.2.alive now

def updateSession (id : Uuid) (f : RelaySigningSession PK → RelaySigningSession PK)
    (sessions : Sessions PK) : Sessions PK :=
  sessions.map fun entry => if entry.1 = id then (entry.1, f entry.2) else entry

def registerSession (now : ℕ) (id : Uuid) (peerPublicKey : PK) (sessions : Sessions PK) :
    Sessions PK :=
  (sessions.filter fun entry => entry.1 ≠ id) ++ [(id, ⟨peerPublicKey, now, now, []⟩)]

/-- The answer, and the sessions afterwards. -/
def verifyRequest (now : ℕ) (sessions : Sessions PK) (request : RequestSignature)
    (method pathAndQuery : List Char) (body : List UInt8) :
    Except RelaySignatureValidationError Unit × Sessions PK :=
  match validateTimestamp origin now request.timestamp with
  | .error error => (.error error, sessions)
  | .ok _ =>
    match parseSignatureB64 request.signatureB64 with
    | .error error => (.error error, sessions)
    | .ok signature =>
      let kept := retainSessions now sessions
      match kept.lookup request.signingSessionId with
      | none => (.error .missingSigningSession, kept)
      | some session =>
        let purged := updateSession request.signingSessionId (·.dropNonces now) kept
        if (session.dropNonces now).seenNonces.any fun seen => seen.1 = request.nonce then
          (.error .replayNonce, purged)
        else if C.verify session.peerPublicKey
            (buildRequestSigningMessage C request method pathAndQuery body) signature then
          (.ok (), updateSession request.signingSessionId (·.accept now request.nonce) purged)
        else (.error .invalidSignature, purged)

/-- What a request signature is about. -/
structure RequestContent where
  signingSessionId : Uuid
  timestamp : ℤ
  nonce : Uuid
  method : List Char
  pathAndQuery : List Char
  body : List UInt8
  deriving DecidableEq

def requestContent (request : RequestSignature) (method pathAndQuery : List Char)
    (body : List UInt8) : RequestContent :=
  ⟨request.signingSessionId, request.timestamp, request.nonce, method, pathAndQuery, body⟩

def RequestContent.message (content : RequestContent) : List Char :=
  buildRequestSigningMessage C ⟨content.signingSessionId, content.timestamp, content.nonce, ""⟩
    content.method content.pathAndQuery content.body

/-- A method without a slash and a path that starts with one. -/
def RequestContent.Plain (content : RequestContent) : Prop :=
  '/' ∉ content.method ∧ content.pathAndQuery.head? = some '/'

/-- What a relay key signs: requests, responses to requests, frames, and refreshes of a session. -/
inductive SignedText where
  | request (content : RequestContent)
  | response (timestamp : ℤ) (status : ℕ) (pathAndQuery : List Char)
      (signingSessionId requestNonce responseNonce : Uuid) (body : List UInt8)
  | frame (sig : RequestSignature) (seq : ℕ) (wsFrame : RelayWsFrame)
  | refresh (timestamp : ℤ) (nonce : List Char) (clientId : Uuid)

namespace SignedText

def message : SignedText → List Char
  | .request content => content.message C
  | .response timestamp status path session requestNonce responseNonce body =>
    buildResponseSigningMessage C timestamp status path session requestNonce responseNonce body
  | .frame sig seq wsFrame => wsSigningInput C sig seq wsFrame.msgType wsFrame.payload
  | .refresh timestamp nonce clientId => buildRefreshMessage timestamp nonce clientId

/-- The request that a text says when it is read as one: the nonce of the request that a response
answers stands where a request has its session. -/
def reading : SignedText → Option RequestContent
  | .request content => some content
  | .response timestamp status path session requestNonce responseNonce body =>
    some ⟨requestNonce, timestamp, responseNonce, JsonText.printNat status,
      path ++ '|' :: session.toChars, body⟩
  | .frame _ _ _ => none
  | .refresh _ _ _ => none

def Plain : SignedText → Prop
  | .request content => content.Plain
  | .response _ _ path _ _ _ _ => path.head? = some '/'
  | .frame _ _ _ => True
  | .refresh _ _ _ => True

end SignedText

/-- A session is created, a peer signs a text, or anybody sends a request. -/
inductive SigningEvent (PK : Type) where
  | createSession (now : ℕ) (id : Uuid) (peerPublicKey : PK)
  | sign (key : PK) (text : SignedText)
  | verifyRequest (now : ℕ) (request : RequestSignature) (method pathAndQuery : List Char)
      (body : List UInt8)

namespace SigningEvent

def time? : SigningEvent PK → Option ℕ
  | .createSession now _ _ => some now
  | .sign _ _ => none
  | .verifyRequest now _ _ _ _ => some now

def created? : SigningEvent PK → Option Uuid
  | .createSession _ id _ => some id
  | _ => none

def Plain : SigningEvent PK → Prop
  | .createSession _ _ _ => True
  | .sign _ text => text.Plain
  | .verifyRequest _ request method path body => (requestContent request method path body).Plain

end SigningEvent

/-- The sessions, and the texts signed so far with the keys that signed them. -/
structure SigningState (PK : Type) where
  sessions : Sessions PK
  signed : List (PK × SignedText)

namespace SigningState

def step (s : SigningState PK) : SigningEvent PK → SigningState PK
  | .createSession now id key => { s with sessions := registerSession now id key s.sessions }
  | .sign key text => { s with signed := s.signed ++ [(key, text)] }
  | .verifyRequest now request method path body =>
    { s with sessions := (verifyRequest C origin now s.sessions request method path body).2 }

def run (s : SigningState PK) (events : List (SigningEvent PK)) : SigningState PK :=
  events.foldl (step C origin) s

def start : SigningState PK := ⟨[], []⟩

/-- The answer to a request; other events have none. -/
def answer (s : SigningState PK) :
    SigningEvent PK → Option (Except RelaySignatureValidationError Unit)
  | .verifyRequest now request method path body =>
    some (verifyRequest C origin now s.sessions request method path body).1
  | _ => none

def answers : SigningState PK → List (SigningEvent PK) →
    List (Option (Except RelaySignatureValidationError Unit))
  | _, [] => []
  | s, event :: rest => s.answer C origin event :: answers (s.step C origin event) rest

/-- A key verifies a message only when it has signed it, whatever it was signed as. -/
def Unforged : SigningState PK → List (SigningEvent PK) → Prop
  | _, [] => True
  | s, event :: rest =>
    (match event with
      | .verifyRequest _ request method path body =>
        ∀ signature entry, parseSignatureB64 request.signatureB64 = .ok signature →
          entry ∈ s.sessions → entry.1 = request.signingSessionId →
          C.verify entry.2.peerPublicKey (buildRequestSigningMessage C request method path body)
            signature = true →
          ∃ text, (entry.2.peerPublicKey, text) ∈ s.signed ∧
            text.message C = buildRequestSigningMessage C request method path body
      | _ => True) ∧
    Unforged (s.step C origin event) rest

end SigningState

/-- The clocks do not run backwards, session ids are fresh, and methods and paths are plain. -/
structure Admissible (events : List (SigningEvent PK)) : Prop where
  times : (events.filterMap (·.time?)).Pairwise (· ≤ ·)
  fresh : (events.filterMap (·.created?)).Nodup
  plain : ∀ event ∈ events, event.Plain

variable {C origin} {now : ℕ} {sessions : Sessions PK} {request : RequestSignature}
  {method path : List Char} {body : List UInt8}

/-- The message determines all that was signed. -/
theorem message_inj {a b : RequestContent} (ha : a.Plain) (hb : b.Plain)
    (h : a.message C = b.message C) : a = b := by
  obtain ⟨session, timestamp, nonce, method, path, body⟩ := a
  obtain ⟨session', timestamp', nonce', method', path', body'⟩ := b
  have hbody := List.append_cancel_left h
  obtain ⟨htime, hrest⟩ := first_field_inj (bar_not_mem_printInt _) (bar_not_mem_printInt _) hbody
  -- the last three fields hold no bar, so they are split off from the end
  have hright : (((method ++ '|' :: path) ++ '|' :: session.toChars) ++ '|' :: nonce.toChars) ++
      '|' :: contentHash C body = (((method' ++ '|' :: path') ++ '|' :: session'.toChars) ++
        '|' :: nonce'.toChars) ++ '|' :: contentHash C body' := by
    simpa only [List.append_assoc, List.cons_append] using hrest
  obtain ⟨hright, hhash⟩ := last_field_inj (bar_not_mem_contentHash _) (bar_not_mem_contentHash _) hright
  obtain ⟨hright, hnonce⟩ :=
    last_field_inj (Uuid.bar_not_mem_toChars _) (Uuid.bar_not_mem_toChars _) hright
  obtain ⟨hright, hsession⟩ :=
    last_field_inj (Uuid.bar_not_mem_toChars _) (Uuid.bar_not_mem_toChars _) hright
  -- the first slash is where the path starts
  obtain ⟨tail, rfl⟩ : ∃ tail, path = '/' :: tail := by
    cases path with
    | nil => cases ha.2
    | cons c tail => exact ⟨tail, by rw [Option.some.inj ha.2]⟩
  obtain ⟨tail', rfl⟩ : ∃ tail', path' = '/' :: tail' := by
    cases path' with
    | nil => cases hb.2
    | cons c tail' => exact ⟨tail', by rw [Option.some.inj hb.2]⟩
  have hslash : ∀ m : List Char, '/' ∉ m → '/' ∉ m ++ ['|'] := by
    intro m hm hmem
    obtain hmem | hmem := List.mem_append.mp hmem
    · exact hm hmem
    · exact absurd hmem (by decide)
  have hfirst : (method ++ ['|']) ++ '/' :: tail = (method' ++ ['|']) ++ '/' :: tail' := by
    simpa using hright
  obtain ⟨hmethod, htail⟩ := first_field_inj (hslash _ ha.1) (hslash _ hb.1) hfirst
  have htimestamp : timestamp = timestamp' := JsonText.printInt_injective htime
  have hsame : method = method' := List.append_cancel_right hmethod
  rw [Uuid.toChars_injective hsession, htimestamp, Uuid.toChars_injective hnonce, hsame, htail,
    contentHash_injective hhash]

/-- A frame has five bars and a request at least six. -/
theorem frame_ne_request {sig : RequestSignature} {seq : ℕ} {frame : RelayWsFrame}
    {content : RequestContent} :
    wsSigningInput C sig seq frame.msgType frame.payload ≠ content.message C := by
  intro h
  have hcount := congrArg (List.count '|') h
  have huuid (id : Uuid) : id.toChars.count '|' = 0 :=
    List.count_eq_zero.mpr (Uuid.bar_not_mem_toChars id)
  have hversion : "v1|".toList.count '|' = 1 := by decide
  simp only [wsSigningInput, RequestContent.message, buildRequestSigningMessage, List.count_append,
    List.count_cons_self, huuid, hversion,
    List.count_eq_zero.mpr (bar_not_mem_printNat seq),
    List.count_eq_zero.mpr (bar_not_mem_printInt content.timestamp),
    List.count_eq_zero.mpr (bar_not_mem_asStr frame.msgType),
    List.count_eq_zero.mpr (bar_not_mem_contentHash (C := C) frame.payload),
    List.count_eq_zero.mpr (bar_not_mem_contentHash (C := C) content.body)] at hcount
  omega

/-- A refresh has a word where a request has its timestamp. -/
theorem refresh_ne_request {timestamp : ℤ} {nonce : List Char} {clientId : Uuid}
    {content : RequestContent} : buildRefreshMessage timestamp nonce clientId ≠ content.message C := by
  intro h
  have hbody := List.append_cancel_left h
  have hword := (first_field_inj (by decide) (bar_not_mem_printInt _) hbody).1
  have hmem : 'r' ∈ JsonText.printInt content.timestamp := by
    rw [← hword]
    decide
  exact absurd (JsonText.printInt_chars _ _ hmem) (by decide)

theorem response_message (timestamp : ℤ) (status : ℕ) (path : List Char)
    (session requestNonce responseNonce : Uuid) (body : List UInt8) (signatureB64 : String) :
    buildResponseSigningMessage C timestamp status path session requestNonce responseNonce body =
      buildRequestSigningMessage C ⟨requestNonce, timestamp, responseNonce, signatureB64⟩
        (JsonText.printNat status) (path ++ '|' :: session.toChars) body := by
  simp only [buildResponseSigningMessage, buildRequestSigningMessage, List.append_assoc,
    List.cons_append]

/-- A signed text that is the message of a request says this request. -/
theorem reading_of_message {text : SignedText} {content : RequestContent} (htext : text.Plain)
    (hcontent : content.Plain) (h : text.message C = content.message C) :
    text.reading = some content := by
  cases text with
  | request signed => exact congrArg some (message_inj htext hcontent h)
  | response timestamp status path session requestNonce responseNonce body =>
    have hplain : RequestContent.Plain ⟨requestNonce, timestamp, responseNonce,
        JsonText.printNat status, path ++ '|' :: session.toChars, body⟩ := by
      constructor
      · intro hmem
        exact absurd (JsonText.printNat_digits _ _ hmem) (by decide)
      · cases path with
        | nil => cases htext
        | cons c rest => exact htext
    refine congrArg some (message_inj hplain hcontent (Eq.trans ?_ h))
    exact (response_message _ _ _ _ _ _ _ _).symm
  | frame sig seq wsFrame => exact absurd h frame_ne_request
  | refresh timestamp nonce clientId => exact absurd h refresh_ne_request

/-- What an accepted call has passed, and what it leaves. -/
theorem verifyRequest_ok (h : (verifyRequest C origin now sessions request method path body).1 =
      .ok ()) :
    ∃ signature session, validateTimestamp origin now request.timestamp = .ok () ∧
      parseSignatureB64 request.signatureB64 = .ok signature ∧
      (retainSessions now sessions).lookup request.signingSessionId = some session ∧
      (∀ seen ∈ session.seenNonces, now - seen.2 ≤ relayNonceTtl → seen.1 ≠ request.nonce) ∧
      C.verify session.peerPublicKey (buildRequestSigningMessage C request method path body)
        signature = true ∧
      (verifyRequest C origin now sessions request method path body).2 =
        updateSession request.signingSessionId (·.accept now request.nonce)
          (updateSession request.signingSessionId (·.dropNonces now)
            (retainSessions now sessions)) := by
  unfold verifyRequest at h ⊢
  split at h
  · cases h
  rename_i htime
  split at h
  · cases h
  rename_i signature hsignature
  dsimp only at h
  split at h
  · cases h
  rename_i session hsession
  split at h
  · cases h
  rename_i hnonce
  split at h
  swap
  · cases h
  rename_i hverify
  refine ⟨signature, session, htime, hsignature, hsession, ?_, hverify, ?_⟩
  · intro seen hseen hfresh heq
    apply hnonce
    rw [List.any_eq_true]
    exact ⟨seen, List.mem_filter.mpr ⟨hseen, decide_eq_true hfresh⟩, decide_eq_true heq⟩
  · simp only [hsession, if_neg hnonce, if_pos hverify]

/-- What a rejected call can leave. -/
theorem verifyRequest_rejected
    (h : (verifyRequest C origin now sessions request method path body).1 ≠ .ok ()) :
    (verifyRequest C origin now sessions request method path body).2 = sessions ∨
    (verifyRequest C origin now sessions request method path body).2 =
      retainSessions now sessions ∨
    (verifyRequest C origin now sessions request method path body).2 =
      updateSession request.signingSessionId (·.dropNonces now) (retainSessions now sessions) := by
  unfold verifyRequest at h ⊢
  split
  · exact Or.inl rfl
  rename_i htime
  split
  · exact Or.inl rfl
  rename_i signature hsignature
  simp only [htime, hsignature] at h
  dsimp only
  split
  · exact Or.inr (Or.inl rfl)
  rename_i session hsession
  simp only [hsession] at h
  split_ifs at h ⊢
  · exact Or.inr (Or.inr rfl)
  · exact absurd rfl h
  · exact Or.inr (Or.inr rfl)

theorem mem_retainSessions {entry : Uuid × RelaySigningSession PK}
    (h : entry ∈ retainSessions now sessions) : entry ∈ sessions := List.mem_of_mem_filter h

theorem mem_updateSession {id : Uuid} {f : RelaySigningSession PK → RelaySigningSession PK}
    {entry : Uuid × RelaySigningSession PK} (h : entry ∈ updateSession id f sessions) :
    ∃ old, (entry.1, old) ∈ sessions ∧
      ((entry.1 = id ∧ entry.2 = f old) ∨ (entry.1 ≠ id ∧ entry.2 = old)) := by
  obtain ⟨before, hbefore, heq⟩ := List.mem_map.mp h
  split_ifs at heq with hid
  · subst heq
    exact ⟨before.2, hbefore, Or.inl ⟨hid, rfl⟩⟩
  · subst heq
    exact ⟨before.2, hbefore, Or.inr ⟨hid, rfl⟩⟩

/-- Two moments at which one timestamp is in its window are closer than a nonce is kept. -/
theorem validateTimestamp_close {earlier : ℕ} {timestamp : ℤ}
    (h : validateTimestamp origin earlier timestamp = .ok ())
    (h' : validateTimestamp origin now timestamp = .ok ()) : now - earlier ≤ relayNonceTtl := by
  have hdrift : ∀ t, validateTimestamp origin t timestamp = .ok () →
      -30 ≤ wallSecs origin t - timestamp ∧ wallSecs origin t - timestamp ≤ 30 := by
    intro t ht
    unfold validateTimestamp at ht
    split_ifs at ht with _ habs
    rw [not_lt, relaySignatureMaxTimestampDriftSecs, abs_le] at habs
    unfold i64SaturatingSub i64Max at habs
    omega
  obtain ⟨hlow, -⟩ := hdrift earlier h
  obtain ⟨-, hhigh⟩ := hdrift now h'
  simp only [wallSecs, nanosPerSec] at hlow hhigh
  simp only [relayNonceTtl, nanosPerSec]
  omega

/-- The requests that an event gets accepted, with its time. -/
def acceptedCall (C : RelayCrypto SK PK) (origin : ℕ) (s : SigningState PK) :
    SigningEvent PK → List (ℕ × RequestContent)
  | .verifyRequest now request method path body =>
    match (verifyRequest C origin now s.sessions request method path body).1 with
    | .ok _ => [(now, requestContent request method path body)]
    | .error _ => []
  | _ => []

/-- The accepted requests of a run, in order. -/
def acceptedCalls (C : RelayCrypto SK PK) (origin : ℕ) :
    SigningState PK → List (SigningEvent PK) → List (ℕ × RequestContent)
  | _, [] => []
  | s, event :: rest => acceptedCall C origin s event ++ acceptedCalls C origin (s.step C origin event) rest

variable {s : SigningState PK} {event : SigningEvent PK} {before later events : List (SigningEvent PK)}

theorem signing_run_append :
    s.run C origin (before ++ later) = (s.run C origin before).run C origin later :=
  List.foldl_append

theorem acceptedCalls_append : acceptedCalls C origin s (before ++ later) =
    acceptedCalls C origin s before ++ acceptedCalls C origin (s.run C origin before) later := by
  induction before generalizing s with
  | nil => rfl
  | cons event rest ih =>
    simp only [List.cons_append, acceptedCalls, ih, List.append_assoc]
    rfl

theorem signing_unforged_append : SigningState.Unforged C origin s (before ++ later) ↔
    SigningState.Unforged C origin s before ∧
      SigningState.Unforged C origin (s.run C origin before) later := by
  induction before generalizing s with
  | nil => exact ⟨fun h => ⟨trivial, h⟩, fun h => h.2⟩
  | cons event rest ih =>
    simp only [List.cons_append, SigningState.Unforged, ih, and_assoc]
    rfl

theorem Admissible.left (h : Admissible (before ++ later)) : Admissible before where
  times := by
    have htimes := h.times
    rw [List.filterMap_append, List.pairwise_append] at htimes
    exact htimes.1
  fresh := by
    have hfresh := h.fresh
    rw [List.filterMap_append] at hfresh
    exact hfresh.of_append_left
  plain event hevent := h.plain event (List.mem_append_left _ hevent)

/-- What the server knows after a run. -/
structure Remembers (C : RelayCrypto SK PK) (origin : ℕ) (before : List (SigningEvent PK))
    (s : SigningState PK) (accepted : List (ℕ × RequestContent)) : Prop where
  unique : (s.sessions.map Prod.fst).Nodup
  created : ∀ entry ∈ s.sessions, ∃ time,
    SigningEvent.createSession time entry.1 entry.2.peerPublicKey ∈ before
  signed : ∀ entry ∈ s.signed, SigningEvent.sign entry.1 entry.2 ∈ before
  session : ∀ call ∈ accepted, call.2.signingSessionId ∈ before.filterMap (·.created?)
  window : ∀ call ∈ accepted, validateTimestamp origin call.1 call.2.timestamp = .ok ()
  nonce : ∀ call ∈ accepted, ∀ entry ∈ s.sessions, entry.1 = call.2.signingSessionId →
    (call.2.nonce, call.1) ∈ entry.2.seenNonces ∨
      ∃ time ∈ before.filterMap (·.time?), relayNonceTtl < time - call.1
  once : (accepted.map Prod.snd).Nodup

/-- An update keeps what is remembered when every session keeps its peer and its nonces, save those
that have expired. -/
theorem Remembers.verify {accepted : List (ℕ × RequestContent)}
    (h : Remembers C origin before s accepted) {sessions' : Sessions PK}
    (hunique : (sessions'.map Prod.fst).Nodup)
    (hkept : ∀ entry ∈ sessions', ∃ old ∈ s.sessions, entry.1 = old.1 ∧
      entry.2.peerPublicKey = old.2.peerPublicKey ∧
      ∀ seen ∈ old.2.seenNonces, seen ∈ entry.2.seenNonces ∨ relayNonceTtl < now - seen.2) :
    Remembers C origin (before ++ [.verifyRequest now request method path body])
      { s with sessions := sessions' } accepted where
  unique := hunique
  created entry hentry := by
    obtain ⟨old, hold, hid, hpeer, _⟩ := hkept entry hentry
    obtain ⟨time, htime⟩ := h.created old hold
    exact ⟨time, by rw [hid, hpeer]; exact List.mem_append_left _ htime⟩
  signed entry hentry := List.mem_append_left _ (h.signed entry hentry)
  session call hcall := by
    rw [List.filterMap_append]
    exact List.mem_append_left _ (h.session call hcall)
  window := h.window
  nonce call hcall entry hentry hid := by
    obtain ⟨old, hold, hsame, _, hnonces⟩ := hkept entry hentry
    rw [List.filterMap_append]
    obtain hseen | ⟨time, htime, hexpired⟩ := h.nonce call hcall old hold (hsame ▸ hid)
    · obtain hstill | hexpired := hnonces _ hseen
      · exact Or.inl hstill
      · exact Or.inr ⟨now, List.mem_append_right _ (by simp [SigningEvent.time?]), hexpired⟩
    · exact Or.inr ⟨time, List.mem_append_left _ htime, hexpired⟩
  once := h.once

/-- Sessions from which only expired sessions and nonces are gone. -/
theorem kept_of_rejected (h : (verifyRequest C origin now sessions request method path body).1 ≠
      .ok ()) :
    ∀ entry ∈ (verifyRequest C origin now sessions request method path body).2,
      ∃ old ∈ sessions, entry.1 = old.1 ∧ entry.2.peerPublicKey = old.2.peerPublicKey ∧
        ∀ seen ∈ old.2.seenNonces, seen ∈ entry.2.seenNonces ∨ relayNonceTtl < now - seen.2 := by
  intro entry hentry
  obtain heq | heq | heq := verifyRequest_rejected h
  · rw [heq] at hentry
    exact ⟨entry, hentry, rfl, rfl, fun _ => Or.inl⟩
  · rw [heq] at hentry
    exact ⟨entry, mem_retainSessions hentry, rfl, rfl, fun _ => Or.inl⟩
  · rw [heq] at hentry
    obtain ⟨old, hold, ⟨_, hnew⟩ | ⟨_, hnew⟩⟩ := mem_updateSession hentry
    · refine ⟨_, mem_retainSessions hold, rfl, by rw [hnew]; rfl, fun seen hseen => ?_⟩
      rw [hnew]
      by_cases hfresh : now - seen.2 ≤ relayNonceTtl
      · exact Or.inl (List.mem_filter.mpr ⟨hseen, decide_eq_true hfresh⟩)
      · exact Or.inr (Nat.lt_of_not_le hfresh)
    · exact ⟨_, mem_retainSessions hold, rfl, by rw [hnew], fun _ hseen => Or.inl (hnew ▸ hseen)⟩

theorem lookup_unique {id : Uuid} {session : RelaySigningSession PK}
    (hunique : (sessions.map Prod.fst).Nodup) (hmem : (id, session) ∈ sessions) :
    sessions.lookup id = some session := by
  induction sessions with
  | nil => cases hmem
  | cons entry rest ih =>
    rw [List.map_cons, List.nodup_cons] at hunique
    obtain rfl | hrest := List.mem_cons.mp hmem
    · simp
    · have hne : id ≠ entry.1 := fun heq => hunique.1 (heq ▸ List.mem_map_of_mem hrest)
      rw [List.lookup_cons, beq_eq_false_iff_ne.mpr hne]
      exact ih hunique.2 hrest

theorem mem_of_lookup_eq {id : Uuid} {session : RelaySigningSession PK}
    (h : sessions.lookup id = some session) : (id, session) ∈ sessions := by
  obtain ⟨before, after, heq, _⟩ := List.lookup_eq_some_iff.mp h
  simp [heq]

theorem unique_retain (h : (sessions.map Prod.fst).Nodup) :
    ((retainSessions now sessions).map Prod.fst).Nodup :=
  h.sublist (List.filter_sublist.map _)

theorem map_updateSession (id : Uuid) (f : RelaySigningSession PK → RelaySigningSession PK) :
    (updateSession id f sessions).map Prod.fst = sessions.map Prod.fst := by
  rw [updateSession, List.map_map]
  refine List.map_congr_left fun entry _ => ?_
  rw [Function.comp_apply]
  split_ifs
  · rfl
  · rfl

theorem kept_of_accepted (hunique : (sessions.map Prod.fst).Nodup)
    {session : RelaySigningSession PK}
    (hlookup : (retainSessions now sessions).lookup request.signingSessionId = some session)
    (hnonce : ∀ seen ∈ session.seenNonces, now - seen.2 ≤ relayNonceTtl → seen.1 ≠ request.nonce)
    {entry : Uuid × RelaySigningSession PK}
    (hentry : entry ∈ updateSession request.signingSessionId (·.accept now request.nonce)
      (updateSession request.signingSessionId (·.dropNonces now) (retainSessions now sessions))) :
    (∃ old ∈ sessions, entry.1 = old.1 ∧ entry.2.peerPublicKey = old.2.peerPublicKey ∧
      ∀ seen ∈ old.2.seenNonces, seen ∈ entry.2.seenNonces ∨ relayNonceTtl < now - seen.2) ∧
    (entry.1 = request.signingSessionId → (request.nonce, now) ∈ entry.2.seenNonces) := by
  obtain ⟨mid, hmid, ⟨hid, hnew⟩ | ⟨hid, hnew⟩⟩ := mem_updateSession hentry
  · obtain ⟨old, hold, ⟨_, hdropped⟩ | ⟨hne, _⟩⟩ := mem_updateSession hmid
    · dsimp only at hold hdropped
      have hsession : old = session := by
        have hfound := lookup_unique (unique_retain hunique) hold
        rw [hid, hlookup] at hfound
        exact (Option.some.inj hfound).symm
      refine ⟨⟨_, mem_retainSessions hold, rfl, by rw [hnew, hdropped]; rfl, fun seen hseen => ?_⟩,
        fun _ => ?_⟩
      · rw [hnew, hdropped]
        by_cases hfresh : now - seen.2 ≤ relayNonceTtl
        · left
          refine List.mem_append_left _ (List.mem_filter.mpr ⟨List.mem_filter.mpr
            ⟨hseen, decide_eq_true hfresh⟩, decide_eq_true (hnonce seen (hsession ▸ hseen) hfresh)⟩)
        · exact Or.inr (Nat.lt_of_not_le hfresh)
      · rw [hnew]
        exact List.mem_append_right _ (List.mem_singleton.mpr rfl)
    · exact absurd hid hne
  · obtain ⟨old, hold, ⟨heq, _⟩ | ⟨_, hsame⟩⟩ := mem_updateSession hmid
    · exact absurd heq hid
    · dsimp only at hold hsame
      refine ⟨⟨_, mem_retainSessions hold, rfl, by rw [hnew, hsame], fun seen hseen => ?_⟩,
        fun heq => absurd heq hid⟩
      rw [hnew, hsame]
      exact Or.inl hseen

theorem unique_verifyRequest (h : (sessions.map Prod.fst).Nodup) :
    (((verifyRequest C origin now sessions request method path body).2).map Prod.fst).Nodup := by
  by_cases hok : (verifyRequest C origin now sessions request method path body).1 = .ok ()
  · obtain ⟨_, _, _, _, _, _, _, heq⟩ := verifyRequest_ok hok
    rw [heq, map_updateSession, map_updateSession]
    exact unique_retain h
  · obtain heq | heq | heq := verifyRequest_rejected hok
    · rwa [heq]
    · rw [heq]
      exact unique_retain h
    · rw [heq, map_updateSession]
      exact unique_retain h

/-- A further accepted request is a new one. -/
theorem Remembers.accepted {accepted : List (ℕ × RequestContent)}
    (h : Remembers C origin before s accepted)
    (htimes : ∀ time ∈ before.filterMap (·.time?), time ≤ now)
    (hok : (verifyRequest C origin now s.sessions request method path body).1 = .ok ()) :
    Remembers C origin (before ++ [.verifyRequest now request method path body])
      (s.step C origin (.verifyRequest now request method path body))
      (accepted ++ [(now, requestContent request method path body)]) := by
  obtain ⟨signature, session, hwindow, _, hlookup, hnonce, _, hsessions⟩ := verifyRequest_ok hok
  have hmem : (request.signingSessionId, session) ∈ s.sessions :=
    mem_retainSessions (mem_of_lookup_eq hlookup)
  have hold : Remembers C origin (before ++ [.verifyRequest now request method path body])
      (s.step C origin (.verifyRequest now request method path body)) accepted := by
    refine h.verify (unique_verifyRequest h.unique) fun entry hentry => ?_
    rw [hsessions] at hentry
    exact (kept_of_accepted h.unique hlookup hnonce hentry).1
  refine ⟨hold.unique, hold.created, hold.signed, ?_, ?_, ?_, ?_⟩
  · refine List.forall_mem_append.mpr ⟨hold.session, fun call hcall => ?_⟩
    rw [List.mem_singleton.mp hcall]
    obtain ⟨time, htime⟩ := h.created _ hmem
    exact List.mem_filterMap.mpr ⟨_, List.mem_append_left _ htime, rfl⟩
  · refine List.forall_mem_append.mpr ⟨hold.window, fun call hcall => ?_⟩
    rw [List.mem_singleton.mp hcall]
    exact hwindow
  · refine List.forall_mem_append.mpr ⟨hold.nonce, fun call hcall entry hentry hid => ?_⟩
    rw [List.mem_singleton.mp hcall] at hid ⊢
    have hentry' : entry ∈ (verifyRequest C origin now s.sessions request method path body).2 :=
      hentry
    rw [hsessions] at hentry'
    exact Or.inl ((kept_of_accepted h.unique hlookup hnonce hentry').2 hid)
  · rw [List.map_append, List.map_singleton, List.nodup_append]
    refine ⟨h.once, List.nodup_singleton _, fun content hcontent content' hcontent' heq => ?_⟩
    rw [List.mem_singleton] at hcontent'
    obtain ⟨call, hcall, hcalled⟩ := List.mem_map.mp hcontent
    have hsame : call.2 = requestContent request method path body := by rw [hcalled, heq, hcontent']
    have hclose : now - call.1 ≤ relayNonceTtl := by
      have hearlier := h.window call hcall
      rw [hsame] at hearlier
      exact validateTimestamp_close hearlier hwindow
    obtain hseen | ⟨time, htime, hexpired⟩ := h.nonce call hcall _ hmem (by rw [hsame]; rfl)
    · rw [hsame] at hseen
      exact hnonce _ hseen hclose rfl
    · have hle := htimes time htime
      omega

theorem Remembers.create {accepted : List (ℕ × RequestContent)}
    (h : Remembers C origin before s accepted) {id : Uuid} (key : PK)
    (hfresh : id ∉ before.filterMap (·.created?)) :
    Remembers C origin (before ++ [.createSession now id key])
      (s.step C origin (.createSession now id key)) accepted where
  unique := by
    simp only [SigningState.step, registerSession]
    rw [List.map_append, List.map_singleton, List.nodup_append]
    refine ⟨h.unique.sublist (List.filter_sublist.map _), List.nodup_singleton _, ?_⟩
    intro a ha b hb heq
    obtain ⟨entry, hentry, rfl⟩ := List.mem_map.mp ha
    rw [List.mem_singleton.mp hb] at heq
    simpa [heq] using (List.mem_filter.mp hentry).2
  created entry hentry := by
    obtain hentry | hentry := List.mem_append.mp hentry
    · obtain ⟨time, htime⟩ := h.created entry (List.mem_of_mem_filter hentry)
      exact ⟨time, List.mem_append_left _ htime⟩
    · rw [List.mem_singleton.mp hentry]
      exact ⟨now, List.mem_append_right _ (List.mem_singleton.mpr rfl)⟩
  signed entry hentry := List.mem_append_left _ (h.signed entry hentry)
  session call hcall := by
    rw [List.filterMap_append]
    exact List.mem_append_left _ (h.session call hcall)
  window := h.window
  nonce call hcall entry hentry hid := by
    rw [List.filterMap_append]
    obtain hentry | hentry := List.mem_append.mp hentry
    · obtain hseen | ⟨time, htime, hexpired⟩ :=
        h.nonce call hcall entry (List.mem_of_mem_filter hentry) hid
      · exact Or.inl hseen
      · exact Or.inr ⟨time, List.mem_append_left _ htime, hexpired⟩
    · rw [List.mem_singleton.mp hentry] at hid
      have hsession := h.session call hcall
      rw [← hid] at hsession
      exact absurd hsession hfresh
  once := h.once

theorem Remembers.sign {accepted : List (ℕ × RequestContent)}
    (h : Remembers C origin before s accepted) (key : PK) (text : SignedText) :
    Remembers C origin (before ++ [.sign key text]) (s.step C origin (.sign key text)) accepted where
  unique := h.unique
  created entry hentry := by
    obtain ⟨time, htime⟩ := h.created entry hentry
    exact ⟨time, List.mem_append_left _ htime⟩
  signed := by
    refine List.forall_mem_append.mpr ⟨fun entry hentry => ?_, fun entry hentry => ?_⟩
    · exact List.mem_append_left _ (h.signed entry hentry)
    · rw [List.mem_singleton.mp hentry]
      exact List.mem_append_right _ (List.mem_singleton.mpr rfl)
  session call hcall := by
    rw [List.filterMap_append]
    exact List.mem_append_left _ (h.session call hcall)
  window := h.window
  nonce call hcall entry hentry hid := by
    rw [List.filterMap_append]
    obtain hseen | ⟨time, htime, hexpired⟩ := h.nonce call hcall entry hentry hid
    · exact Or.inl hseen
    · exact Or.inr ⟨time, List.mem_append_left _ htime, hexpired⟩
  once := h.once

theorem Remembers.step {accepted : List (ℕ × RequestContent)}
    (h : Remembers C origin before s accepted) (hadm : Admissible (before ++ [event])) :
    Remembers C origin (before ++ [event]) (s.step C origin event)
      (accepted ++ acceptedCall C origin s event) := by
  cases event with
  | createSession now id key =>
    have hfresh := hadm.fresh
    rw [List.filterMap_append, List.nodup_append] at hfresh
    simp only [acceptedCall, List.append_nil]
    exact h.create key fun hmem => hfresh.2.2 id hmem id (by simp [SigningEvent.created?]) rfl
  | sign key text =>
    simp only [acceptedCall, List.append_nil]
    exact h.sign key text
  | verifyRequest now request method path body =>
    have htimes := hadm.times
    rw [List.filterMap_append, List.pairwise_append] at htimes
    simp only [acceptedCall]
    split
    · rename_i hok
      exact h.accepted (fun time htime => htimes.2.2 time htime now (by simp [SigningEvent.time?])) hok
    · rename_i error herror
      have hrejected : (verifyRequest C origin now s.sessions request method path body).1 ≠
          .ok () := by
        rw [herror]
        exact fun h => nomatch h
      rw [List.append_nil]
      exact h.verify (unique_verifyRequest h.unique) (kept_of_rejected hrejected)

/-- Along every admissible run the server remembers what it has accepted. -/
theorem Remembers.run (hadm : Admissible events) :
    Remembers C origin events (SigningState.start.run C origin events)
      (acceptedCalls C origin .start events) := by
  induction events using List.reverseRecOn with
  | nil =>
    refine ⟨List.nodup_nil, ?_, ?_, ?_, ?_, ?_, List.nodup_nil⟩
    all_goals simp [SigningState.start, SigningState.run, acceptedCalls]
  | append_singleton before event ih =>
    rw [signing_run_append, acceptedCalls_append]
    have hone : acceptedCalls C origin (SigningState.start.run C origin before) [event] =
        acceptedCall C origin (SigningState.start.run C origin before) event :=
      List.append_nil _
    rw [hone]
    exact (ih hadm.left).step hadm

/-- The sessions and nonces that count at a moment. -/
def purge (now : ℕ) (sessions : Sessions PK) : Sessions PK :=
  (retainSessions now sessions).map fun entry => (entry.1, entry.2.dropNonces now)

theorem alive_mono {now' : ℕ} (hle : now ≤ now') {session : RelaySigningSession PK}
    (h : session.alive now' = true) : session.alive now = true := by
  simp only [RelaySigningSession.alive, Bool.and_eq_true, decide_eq_true_eq] at h ⊢
  omega

theorem dropNonces_dropNonces {now' : ℕ} (hle : now ≤ now') (session : RelaySigningSession PK) :
    (session.dropNonces now).dropNonces now' = session.dropNonces now' := by
  simp only [RelaySigningSession.dropNonces, List.filter_filter]
  congr 1
  refine List.filter_congr fun seen _ => ?_
  by_cases hfresh : now' - seen.2 ≤ relayNonceTtl
  · have : now - seen.2 ≤ relayNonceTtl := by omega
    simp [hfresh, this]
  · simp [hfresh]

theorem retainSessions_retain {now' : ℕ} (hle : now ≤ now') :
    retainSessions now' (retainSessions now sessions) = retainSessions now' sessions := by
  rw [retainSessions, retainSessions, List.filter_filter]
  refine List.filter_congr fun entry _ => ?_
  cases halive : entry.2.alive now' with
  | false => rfl
  | true => rw [alive_mono hle halive]; rfl

theorem retainSessions_dropNonces {now' : ℕ} :
    retainSessions now' (sessions.map fun entry => (entry.1, entry.2.dropNonces now)) =
      (retainSessions now' sessions).map fun entry => (entry.1, entry.2.dropNonces now) := by
  simp only [retainSessions, List.filter_map]
  rfl

/-- What was purged earlier does not count later. -/
theorem purge_purge {now' : ℕ} (hle : now ≤ now') :
    purge now' (purge now sessions) = purge now' sessions := by
  rw [purge, purge, retainSessions_dropNonces, retainSessions_retain hle, List.map_map, purge]
  refine List.map_congr_left fun entry _ => ?_
  rw [Function.comp_apply, dropNonces_dropNonces hle]

theorem retainSessions_purge : retainSessions now (purge now sessions) = purge now sessions := by
  rw [purge, retainSessions_dropNonces, retainSessions_retain (le_refl now)]

/-- An update that keeps sessions alive, purged. -/
theorem purge_map (f : Uuid × RelaySigningSession PK → Uuid × RelaySigningSession PK)
    (h : ∀ entry ∈ sessions, (f entry).2.alive now = true) :
    purge now (sessions.map f) =
      sessions.map fun entry => ((f entry).1, (f entry).2.dropNonces now) := by
  have hretain : retainSessions now (sessions.map f) = sessions.map f := by
    refine List.filter_eq_self.mpr fun entry hentry => ?_
    obtain ⟨old, hold, rfl⟩ := List.mem_map.mp hentry
    exact h old hold
  rw [purge, hretain, List.map_map]
  rfl

theorem alive_of_mem_retain {entry : Uuid × RelaySigningSession PK}
    (h : entry ∈ retainSessions now sessions) : entry.2.alive now = true :=
  (List.mem_filter.mp h).2

theorem alive_accept {session : RelaySigningSession PK} (nonce : Uuid)
    (h : session.alive now = true) : (session.accept now nonce).alive now = true := by
  simp only [RelaySigningSession.alive, Bool.and_eq_true, decide_eq_true_eq] at h
  simp [RelaySigningSession.alive, RelaySigningSession.accept, h.1]

theorem purge_retain : purge now (retainSessions now sessions) = purge now sessions := by
  rw [purge, retainSessions_retain (le_refl now), purge]

theorem purge_drop {id : Uuid} :
    purge now (updateSession id (·.dropNonces now) (retainSessions now sessions)) =
      purge now sessions := by
  rw [updateSession, purge_map _ fun entry hentry => ?_, purge]
  · refine List.map_congr_left fun entry _ => ?_
    split_ifs
    · rw [dropNonces_dropNonces (le_refl now)]
    · rfl
  · have halive := alive_of_mem_retain hentry
    split_ifs
    · exact halive
    · exact halive

/-- The update of an accepted request, on one entry. -/
def admitNonce (now : ℕ) (id nonce : Uuid) (entry : Uuid × RelaySigningSession PK) :
    Uuid × RelaySigningSession PK :=
  if entry.1 = id then (entry.1, (entry.2.dropNonces now).accept now nonce) else entry

theorem updateSession_admitNonce (id nonce : Uuid) :
    updateSession id (·.accept now nonce) (updateSession id (·.dropNonces now) sessions) =
      sessions.map (admitNonce now id nonce) := by
  rw [updateSession, updateSession, List.map_map]
  refine List.map_congr_left fun entry _ => ?_
  rw [Function.comp_apply, admitNonce]
  split_ifs
  · rfl
  · rfl

theorem alive_admitNonce {id nonce : Uuid} {entry : Uuid × RelaySigningSession PK}
    (h : entry.2.alive now = true) : (admitNonce now id nonce entry).2.alive now = true := by
  unfold admitNonce
  split_ifs
  · exact alive_accept nonce h
  · exact h

theorem purge_accept (id nonce : Uuid) :
    purge now ((retainSessions now sessions).map (admitNonce now id nonce)) =
      purge now ((purge now sessions).map (admitNonce now id nonce)) := by
  rw [purge_map _ fun entry hentry => alive_admitNonce (alive_of_mem_retain hentry)]
  have hpurged : ∀ entry ∈ purge now sessions, entry.2.alive now = true := by
    intro entry hentry
    rw [← retainSessions_purge] at hentry
    exact alive_of_mem_retain hentry
  rw [purge_map _ fun entry hentry => alive_admitNonce (hpurged entry hentry), purge, List.map_map]
  refine List.map_congr_left fun entry _ => ?_
  rw [Function.comp_apply]
  by_cases hid : entry.1 = id
  · simp only [admitNonce, if_pos hid, dropNonces_dropNonces (le_refl now)]
  · simp only [admitNonce, if_neg hid, dropNonces_dropNonces (le_refl now)]

theorem lookup_map_snd {f : RelaySigningSession PK → RelaySigningSession PK} (id : Uuid) :
    (sessions.map fun entry => (entry.1, f entry.2)).lookup id = (sessions.lookup id).map f := by
  induction sessions with
  | nil => rfl
  | cons entry rest ih =>
    rw [List.map_cons, List.lookup_cons, List.lookup_cons]
    cases id == entry.1 with
    | true => rfl
    | false => exact ih

/-- A call answers by what counts at its moment, and what counts afterwards follows from that. -/
theorem verifyRequest_purge (C : RelayCrypto SK PK) (origin now : ℕ) (sessions : Sessions PK)
    (request : RequestSignature) (method path : List Char) (body : List UInt8) :
    (verifyRequest C origin now sessions request method path body).1 =
        (verifyRequest C origin now (purge now sessions) request method path body).1 ∧
      purge now (verifyRequest C origin now sessions request method path body).2 =
        purge now (verifyRequest C origin now (purge now sessions) request method path body).2 := by
  have hself : purge now (purge now sessions) = purge now sessions := purge_purge (le_refl now)
  unfold verifyRequest
  split
  · exact ⟨rfl, hself.symm⟩
  split
  · exact ⟨rfl, hself.symm⟩
  simp only [retainSessions_purge]
  have hlookup : (purge now sessions).lookup request.signingSessionId =
      ((retainSessions now sessions).lookup request.signingSessionId).map (·.dropNonces now) :=
    lookup_map_snd _
  rw [hlookup]
  cases (retainSessions now sessions).lookup request.signingSessionId with
  | none =>
    refine ⟨rfl, ?_⟩
    change purge now (retainSessions now sessions) = purge now (purge now sessions)
    rw [purge_retain, hself]
  | some session =>
    have hdrop : purge now (updateSession request.signingSessionId (·.dropNonces now)
        (retainSessions now (purge now sessions))) = purge now (purge now sessions) := purge_drop
    rw [retainSessions_purge, hself] at hdrop
    simp only [Option.map_some, dropNonces_dropNonces (le_refl now)]
    have hpeer : (session.dropNonces now).peerPublicKey = session.peerPublicKey := rfl
    rw [hpeer]
    split_ifs
    · exact ⟨rfl, by rw [purge_drop, hdrop]⟩
    · refine ⟨rfl, ?_⟩
      rw [updateSession_admitNonce, updateSession_admitNonce, purge_accept]
    · exact ⟨rfl, by rw [purge_drop, hdrop]⟩

theorem purge_registerSession (id : Uuid) (key : PK) :
    purge now (registerSession now id key sessions) =
      registerSession now id key (purge now sessions) := by
  have hnew : purge now [(id, (⟨key, now, now, []⟩ : RelaySigningSession PK))] =
      [(id, ⟨key, now, now, []⟩)] := by
    simp [purge, retainSessions, RelaySigningSession.alive, RelaySigningSession.dropNonces]
  have hfilter : purge now (sessions.filter fun entry => entry.1 ≠ id) =
      (purge now sessions).filter fun entry => entry.1 ≠ id := by
    simp only [purge, retainSessions, List.filter_map, List.filter_filter]
    congr 1
    refine List.filter_congr fun entry _ => ?_
    exact Bool.and_comm _ _
  have happend : ∀ l l' : Sessions PK, purge now (l ++ l') = purge now l ++ purge now l' := by
    intro l l'
    simp [purge, retainSessions]
  rw [registerSession, registerSession, happend, hnew, hfilter]

theorem purge_step (C : RelayCrypto SK PK) (origin : ℕ) {s' : SigningState PK} {time : ℕ} (htime : event.time? = some time)
    (h : purge time s.sessions = purge time s'.sessions) :
    s.answer C origin event = s'.answer C origin event ∧
      purge time (s.step C origin event).sessions = purge time (s'.step C origin event).sessions := by
  cases event with
  | createSession now id key =>
    obtain rfl := Option.some.inj htime
    refine ⟨rfl, ?_⟩
    simp only [SigningState.step]
    rw [purge_registerSession, purge_registerSession, h]
  | sign key content => cases htime
  | verifyRequest now request method path body =>
    obtain rfl := Option.some.inj htime
    simp only [SigningState.answer, SigningState.step]
    obtain ⟨hanswer, hsessions⟩ := verifyRequest_purge C origin now s.sessions request method path body
    obtain ⟨hanswer', hsessions'⟩ := verifyRequest_purge C origin now s'.sessions request method path body
    rw [hanswer, hanswer', hsessions, hsessions', h]
    exact ⟨rfl, rfl⟩

/-- States that agree on what counts give the same answers from then on. -/
theorem answers_eq {s' : SigningState PK} (h : purge now s.sessions = purge now s'.sessions)
    (hlater : ∀ time ∈ later.filterMap (·.time?), now ≤ time)
    (hsorted : (later.filterMap (·.time?)).Pairwise (· ≤ ·)) :
    s.answers C origin later = s'.answers C origin later := by
  induction later generalizing s s' now with
  | nil => rfl
  | cons event rest ih =>
    cases htime : event.time? with
    | none =>
      rw [List.filterMap_cons_none htime] at hlater hsorted
      cases event with
      | createSession _ _ _ => cases htime
      | verifyRequest _ _ _ _ _ => cases htime
      | sign key content =>
        exact congrArg (none :: ·)
          (@ih now (s.step C origin (.sign key content))
            (s'.step C origin (.sign key content)) h hlater hsorted)
    | some time =>
      rw [List.filterMap_cons_some htime] at hlater hsorted
      have hle : now ≤ time := hlater time List.mem_cons_self
      have hthen : purge time s.sessions = purge time s'.sessions := by
        rw [← purge_purge hle, h, purge_purge hle]
      obtain ⟨hanswer, hstep⟩ := purge_step C origin htime hthen
      rw [List.pairwise_cons] at hsorted
      rw [SigningState.answers, SigningState.answers, hanswer, ih hstep hsorted.1 hsorted.2]

theorem purge_rejected (h : (verifyRequest C origin now sessions request method path body).1 ≠
      .ok ()) :
    purge now (verifyRequest C origin now sessions request method path body).2 =
      purge now sessions := by
  obtain heq | heq | heq := verifyRequest_rejected h
  · rw [heq]
  · rw [heq, purge_retain]
  · rw [heq, purge_drop]

/-- Every accepted call carries what a text signed by the peer of its session says as a request, no
request is accepted twice, and the calls after a rejected one are answered as if it had not been
made. -/
theorem relay_requests_once (C : RelayCrypto SK PK) (origin : ℕ) (events : List (SigningEvent PK))
    (hadm : Admissible events) (hforged : SigningState.Unforged C origin .start events) :
    (∀ before now request method path body later,
      events = before ++ .verifyRequest now request method path body :: later →
      (SigningState.start.run C origin before).answer C origin
        (.verifyRequest now request method path body) = some (.ok ()) →
      ∃ key time text, .createSession time request.signingSessionId key ∈ before ∧
        (key, text) ∈ (SigningState.start.run C origin before).signed ∧
        text.reading = some (requestContent request method path body)) ∧
    ((acceptedCalls C origin .start events).map Prod.snd).Nodup ∧
    ∀ before event error later, events = before ++ event :: later →
      (SigningState.start.run C origin before).answer C origin event = some (.error error) →
      (SigningState.start.run C origin (before ++ [event])).answers C origin later =
        (SigningState.start.run C origin before).answers C origin later := by
  refine ⟨?_, (Remembers.run hadm).once, ?_⟩
  · intro before now request method path body later hevents hanswer
    subst hevents
    have hremembers : Remembers C origin before _ _ := Remembers.run hadm.left
    obtain ⟨signature, session, _, hsignature, hlookup, _, hverify, _⟩ :=
      verifyRequest_ok (Option.some.inj hanswer)
    have hmem := mem_retainSessions (mem_of_lookup_eq hlookup)
    obtain ⟨time, htime⟩ := hremembers.created _ hmem
    obtain ⟨text, htext, hmessage⟩ :=
      (signing_unforged_append.mp hforged).2.1 signature _ hsignature hmem rfl hverify
    have hplain : text.Plain := hadm.plain _ (List.mem_append_left _ (hremembers.signed _ htext))
    have hplain' : (requestContent request method path body).Plain :=
      hadm.plain _ (List.mem_append_right _ List.mem_cons_self)
    exact ⟨session.peerPublicKey, time, text, htime, htext,
      reading_of_message hplain hplain' hmessage⟩
  · intro before event error later hevents hanswer
    subst hevents
    cases event with
    | createSession _ _ _ => cases hanswer
    | sign _ _ => cases hanswer
    | verifyRequest now request method path body =>
      have hrejected : (verifyRequest C origin now (SigningState.start.run C origin before).sessions
          request method path body).1 ≠ .ok () := by
        rw [Option.some.inj hanswer]
        exact fun h => nomatch h
      have htimes := hadm.times
      have hcons : (SigningEvent.verifyRequest now request method path body :: later).filterMap
          (·.time?) = now :: later.filterMap (·.time?) := List.filterMap_cons_some rfl
      rw [List.filterMap_append, List.pairwise_append, hcons, List.pairwise_cons] at htimes
      refine answers_eq ?_ htimes.2.1.1 htimes.2.1.2
      rw [signing_run_append]
      exact purge_rejected hrejected

theorem verifyRequest_checked {signature : List UInt8} {session : RelaySigningSession PK}
    (htime : validateTimestamp origin now request.timestamp = .ok ())
    (hsignature : parseSignatureB64 request.signatureB64 = .ok signature)
    (hlookup : (retainSessions now sessions).lookup request.signingSessionId = some session)
    (hverify : C.verify session.peerPublicKey
      (buildRequestSigningMessage C request method path body) signature = true) :
    verifyRequest C origin now sessions request method path body =
      if (session.dropNonces now).seenNonces.any fun seen => seen.1 = request.nonce then
        (.error .replayNonce, updateSession request.signingSessionId (·.dropNonces now)
          (retainSessions now sessions))
      else (.ok (), updateSession request.signingSessionId (·.accept now request.nonce)
        (updateSession request.signingSessionId (·.dropNonces now)
          (retainSessions now sessions))) := by
  simp only [verifyRequest, htime, hsignature, hlookup, hverify, if_true]

section AcceptedCalls
variable {signed : List (PK × SignedText)} {after : Sessions PK} {rest : List (SigningEvent PK)}

theorem acceptedCalls_create {id : Uuid} {key : PK} :
    acceptedCalls C origin ⟨sessions, signed⟩ (.createSession now id key :: rest) =
      acceptedCalls C origin ⟨registerSession now id key sessions, signed⟩ rest := rfl

theorem acceptedCalls_sign {key : PK} {text : SignedText} :
    acceptedCalls C origin ⟨sessions, signed⟩ (.sign key text :: rest) =
      acceptedCalls C origin ⟨sessions, signed ++ [(key, text)]⟩ rest := rfl

theorem acceptedCalls_accept
    (h : verifyRequest C origin now sessions request method path body = (.ok (), after)) :
    acceptedCalls C origin ⟨sessions, signed⟩ (.verifyRequest now request method path body :: rest) =
      (now, requestContent request method path body) ::
        acceptedCalls C origin ⟨after, signed⟩ rest := by
  simp only [acceptedCalls, acceptedCall, SigningState.step, h]
  rfl

theorem acceptedCalls_refuse {error : RelaySignatureValidationError}
    (h : verifyRequest C origin now sessions request method path body = (.error error, after)) :
    acceptedCalls C origin ⟨sessions, signed⟩ (.verifyRequest now request method path body :: rest) =
      acceptedCalls C origin ⟨after, signed⟩ rest := by
  simp only [acceptedCalls, acceptedCall, SigningState.step, h]
  rfl

end AcceptedCalls

section Fixture

/-- The first second of 2026. -/
def newYear : ℤ := 1767225600

def infoRequest : RequestSignature :=
  ⟨.nil, newYear, .nil,
    "46ipNg//Nt6V2Y2p+3l4wyKICSoaOtn38FXkxKiivN7RAPY8puih0g4rnLeb3MeswH/HvfUpcOojEf3HAbFmCA=="⟩

def infoText : List Char :=
  "v1|1767225600|GET|/api/info|".toList ++
    ("00000000-0000-0000-0000-000000000000|00000000-0000-0000-0000-000000000000|".toList ++
      "47DEQpj8HBSa+/TImW+5JCeuQeRkm5NMpJWZG3hSuFU=".toList)

/-- An answer of the peer, in a session of its own, to a request whose nonce is the first session. -/
def peerSession : Uuid := ⟨List.replicate 16 255, List.length_replicate⟩

def answerText : List Char :=
  "v1|1767225600|200|/api/info|ffffffff-ffff-ffff-ffff-ffffffffffff|".toList ++
    ("00000000-0000-0000-0000-000000000000|ffffffff-ffff-ffff-ffff-ffffffffffff|".toList ++
      "47DEQpj8HBSa+/TImW+5JCeuQeRkm5NMpJWZG3hSuFU=".toList)

def infoSignature : List UInt8 :=
  [227, 168, 169, 54, 15, 255, 54, 222, 149, 217, 141, 169, 251, 121, 120, 195, 34, 136, 9, 42, 26,
    58, 217, 247, 240, 85, 228, 196, 168, 162, 188, 222, 209, 0, 246, 60, 166, 232, 161, 210, 14, 43,
    156, 183, 155, 220, 199, 172, 192, 127, 199, 189, 245, 41, 112, 234, 35, 17, 253, 199, 1, 177,
    102, 8]

def answerSignature : List UInt8 :=
  [36, 154, 208, 219, 31, 160, 99, 69, 255, 159, 207, 111, 157, 179, 155, 57, 97, 24, 212, 169, 161,
    170, 178, 208, 116, 130, 141, 178, 73, 24, 242, 156, 103, 100, 65, 39, 92, 111, 77, 65, 146, 180,
    244, 188, 197, 195, 249, 15, 33, 148, 116, 55, 70, 1, 52, 2, 218, 122, 47, 115, 69, 121, 80, 8]

/-- The hash of nothing, and the signatures of the texts above by the key of 32 bytes 7. -/
def infoCrypto : RelayCrypto Unit Unit :=
  knownCrypto [([], pingDigest)] [(infoText, infoSignature), (answerText, answerSignature)]
    (by decide) (by decide) (by decide)

def infoContent : RequestContent := requestContent infoRequest "GET".toList "/api/info".toList []

def infoCall (now : ℕ) : SigningEvent Unit :=
  .verifyRequest now infoRequest "GET".toList "/api/info".toList []

def infoAnswer : SignedText :=
  .response newYear 200 "/api/info".toList peerSession .nil peerSession []

/-- The answer, sent as a request with the method 200. -/
def answerRequest : RequestSignature :=
  ⟨.nil, newYear, peerSession,
    "JJrQ2x+gY0X/n89vnbObOWEY1KmhqrLQdIKNskkY8pxnZEEnXG9NQZK09LzFw/kPIZR0N0YBNALaei9zRXlQCA=="⟩

def answerPath : List Char := "/api/info".toList ++ '|' :: peerSession.toChars

def answerContent : RequestContent := requestContent answerRequest (JsonText.printNat 200) answerPath []

def answerCall (now : ℕ) : SigningEvent Unit :=
  .verifyRequest now answerRequest (JsonText.printNat 200) answerPath []

/-- A request and an answer are signed, and each is sent twice as a request. -/
def infoEvents : List (SigningEvent Unit) :=
  [.createSession 0 .nil (), .sign () (.request infoContent), .sign () infoAnswer,
    infoCall (5 * nanosPerSec), infoCall (6 * nanosPerSec), answerCall (7 * nanosPerSec),
    answerCall (8 * nanosPerSec)]

theorem infoContent_plain : infoContent.Plain := ⟨by decide, by decide⟩

theorem answerContent_plain : answerContent.Plain := by
  constructor
  · intro hmem
    exact absurd (JsonText.printNat_digits 200 '/' hmem) (by decide)
  · rfl

theorem infoEvents_admissible : Admissible infoEvents where
  times := by decide
  fresh := by decide
  plain event hevent := by
    simp only [infoEvents, List.mem_cons, List.not_mem_nil, or_false] at hevent
    obtain rfl | rfl | rfl | rfl | rfl | rfl | rfl := hevent
    · trivial
    · exact infoContent_plain
    · exact (rfl : "/api/info".toList.head? = some '/')
    · exact infoContent_plain
    · exact infoContent_plain
    · exact answerContent_plain
    · exact answerContent_plain

/-- What an answer says as a request has the text of the answer. -/
theorem infoAnswer_message (C : RelayCrypto SK PK) : infoAnswer.message C =
    buildRequestSigningMessage C answerRequest (JsonText.printNat 200) answerPath [] :=
  response_message _ _ _ _ _ _ _ _

theorem infoEvents_unforged :
    SigningState.Unforged infoCrypto (newYear.toNat * nanosPerSec) .start infoEvents := by
  refine ⟨trivial, trivial, trivial, ?_, ?_, ?_, ?_, trivial⟩
  · intro signature entry _ _ _ _
    exact ⟨.request infoContent, List.mem_cons_self, rfl⟩
  · intro signature entry _ _ _ _
    exact ⟨.request infoContent, List.mem_cons_self, rfl⟩
  · intro signature entry _ _ _ _
    exact ⟨infoAnswer, List.mem_cons_of_mem _ List.mem_cons_self, infoAnswer_message _⟩
  · intro signature entry _ _ _ _
    exact ⟨infoAnswer, List.mem_cons_of_mem _ List.mem_cons_self, infoAnswer_message _⟩

theorem infoText_message :
    buildRequestSigningMessage infoCrypto infoRequest "GET".toList "/api/info".toList [] =
      infoText := by
  unfold buildRequestSigningMessage infoText
  repeat rw [String.toList_ofList]
  decide +kernel

theorem answerText_message :
    buildRequestSigningMessage infoCrypto answerRequest (JsonText.printNat 200) answerPath [] =
      answerText := by
  unfold buildRequestSigningMessage answerText answerPath
  repeat rw [String.toList_ofList]
  decide +kernel

theorem infoSignature_parsed :
    parseSignatureB64 infoRequest.signatureB64 = .ok (infoCrypto.sign () infoText) := by
  have hsigned : Base64.encode (infoCrypto.sign () infoText) = infoRequest.signatureB64 := by
    have hsign : infoCrypto.sign () infoText = infoSignature :=
      knownCrypto_sign List.lookup_cons_self
    rw [hsign]
    exact congrArg String.ofList (by decide +kernel)
  rw [← hsigned, parseSignatureB64, Base64.decode_encode]
  exact if_pos (infoCrypto.sign_length () infoText)

theorem answerSignature_parsed :
    parseSignatureB64 answerRequest.signatureB64 = .ok (infoCrypto.sign () answerText) := by
  have hother : answerText ≠ infoText := by
    rw [← answerText_message, ← infoText_message]
    intro h
    have hsame : answerContent = infoContent := message_inj answerContent_plain infoContent_plain h
    exact absurd (congrArg RequestContent.nonce hsame) (by decide)
  have hsigned : Base64.encode (infoCrypto.sign () answerText) = answerRequest.signatureB64 := by
    have hsign : infoCrypto.sign () answerText = answerSignature := by
      apply knownCrypto_sign
      rw [List.lookup_cons, beq_eq_false_iff_ne.mpr hother]
      exact List.lookup_cons_self
    rw [hsign]
    exact congrArg String.ofList (by decide +kernel)
  rw [← hsigned, parseSignatureB64, Base64.decode_encode]
  exact if_pos (infoCrypto.sign_length () answerText)

/-- The session of the fixture after some requests were accepted. -/
def infoSessions (lastUsedAt : ℕ) (seenNonces : List (Uuid × ℕ)) : Sessions Unit :=
  [(.nil, ⟨(), 0, lastUsedAt, seenNonces⟩)]

theorem infoCall_checked {now : ℕ} {sessions : Sessions Unit} {session : RelaySigningSession Unit}
    (htime : validateTimestamp (newYear.toNat * nanosPerSec) now infoRequest.timestamp = .ok ())
    (hlookup : (retainSessions now sessions).lookup infoRequest.signingSessionId = some session) :
    verifyRequest infoCrypto (newYear.toNat * nanosPerSec) now sessions infoRequest "GET".toList
        "/api/info".toList [] =
      if (session.dropNonces now).seenNonces.any fun seen => seen.1 = infoRequest.nonce then
        (.error .replayNonce, updateSession infoRequest.signingSessionId (·.dropNonces now)
          (retainSessions now sessions))
      else (.ok (), updateSession infoRequest.signingSessionId (·.accept now infoRequest.nonce)
        (updateSession infoRequest.signingSessionId (·.dropNonces now) (retainSessions now sessions))) := by
  apply verifyRequest_checked htime infoSignature_parsed hlookup
  rw [infoText_message]
  exact infoCrypto.verify_sign () infoText

theorem answerCall_checked {now : ℕ} {sessions : Sessions Unit} {session : RelaySigningSession Unit}
    (htime : validateTimestamp (newYear.toNat * nanosPerSec) now answerRequest.timestamp = .ok ())
    (hlookup : (retainSessions now sessions).lookup answerRequest.signingSessionId = some session) :
    verifyRequest infoCrypto (newYear.toNat * nanosPerSec) now sessions answerRequest (JsonText.printNat 200)
        answerPath [] =
      if (session.dropNonces now).seenNonces.any fun seen => seen.1 = answerRequest.nonce then
        (.error .replayNonce, updateSession answerRequest.signingSessionId (·.dropNonces now)
          (retainSessions now sessions))
      else (.ok (), updateSession answerRequest.signingSessionId (·.accept now answerRequest.nonce)
        (updateSession answerRequest.signingSessionId (·.dropNonces now) (retainSessions now sessions))) := by
  apply verifyRequest_checked htime answerSignature_parsed hlookup
  rw [answerText_message]
  exact infoCrypto.verify_sign () answerText

theorem infoEvents_accepted :
    acceptedCalls infoCrypto (newYear.toNat * nanosPerSec) .start infoEvents =
        [(5 * nanosPerSec, infoContent), (7 * nanosPerSec, answerContent)] := by
  have hfirst : verifyRequest infoCrypto _ (5 * nanosPerSec) (infoSessions 0 []) infoRequest _ _ _ =
      (.ok (), infoSessions (5 * nanosPerSec) [(.nil, 5 * nanosPerSec)]) :=
    (infoCall_checked (by decide +kernel) rfl).trans (if_neg (by decide))
  have hsecond : verifyRequest infoCrypto _ (6 * nanosPerSec)
      (infoSessions (5 * nanosPerSec) [(.nil, 5 * nanosPerSec)]) infoRequest _ _ _ =
      (.error .replayNonce, infoSessions (5 * nanosPerSec) [(.nil, 5 * nanosPerSec)]) :=
    (infoCall_checked (by decide +kernel) rfl).trans (if_pos (by decide))
  have hthird : verifyRequest infoCrypto _ (7 * nanosPerSec)
      (infoSessions (5 * nanosPerSec) [(.nil, 5 * nanosPerSec)]) answerRequest _ _ _ =
      (.ok (), infoSessions (7 * nanosPerSec)
        [(.nil, 5 * nanosPerSec), (peerSession, 7 * nanosPerSec)]) :=
    (answerCall_checked (by decide +kernel) rfl).trans (if_neg (by decide))
  have hfourth : verifyRequest infoCrypto _ (8 * nanosPerSec) (infoSessions (7 * nanosPerSec)
        [(.nil, 5 * nanosPerSec), (peerSession, 7 * nanosPerSec)]) answerRequest _ _ _ =
      (.error .replayNonce, infoSessions (7 * nanosPerSec)
        [(.nil, 5 * nanosPerSec), (peerSession, 7 * nanosPerSec)]) :=
    (answerCall_checked (by decide +kernel) rfl).trans (if_pos (by decide))
  have hopened : registerSession 0 .nil () ([] : Sessions Unit) = infoSessions 0 [] := rfl
  rw [infoEvents, infoCall, infoCall, answerCall, answerCall, SigningState.start,
    acceptedCalls_create, acceptedCalls_sign, acceptedCalls_sign, hopened,
    acceptedCalls_accept hfirst, acceptedCalls_refuse hsecond, acceptedCalls_accept hthird,
    acceptedCalls_refuse hfourth]
  rfl

/-- The request is accepted the first time only, and so is the answer. -/
theorem relay_requests_once_info :
    acceptedCalls infoCrypto (newYear.toNat * nanosPerSec) .start infoEvents =
        [(5 * nanosPerSec, infoContent), (7 * nanosPerSec, answerContent)] ∧
      ((acceptedCalls infoCrypto (newYear.toNat * nanosPerSec) .start infoEvents).map
        Prod.snd).Nodup := by
  refine ⟨infoEvents_accepted, ?_⟩
  exact (relay_requests_once infoCrypto (newYear.toNat * nanosPerSec) infoEvents
    infoEvents_admissible infoEvents_unforged).2.1

/-- A call that carries an answer of the peer is accepted, though the peer has signed no request. -/
theorem answer_accepted_as_request :
    ¬ ∀ (C : RelayCrypto Unit Unit) origin (events : List (SigningEvent Unit)), Admissible events →
      SigningState.Unforged C origin .start events →
      ∀ before now request method path body later,
        events = before ++ .verifyRequest now request method path body :: later →
        (SigningState.start.run C origin before).answer C origin
          (.verifyRequest now request method path body) = some (.ok ()) →
        ∃ key, (key, SignedText.request (requestContent request method path body)) ∈
          (SigningState.start.run C origin before).signed := by
  intro hall
  have hadm : @Admissible Unit
      [.createSession 0 .nil (), .sign () infoAnswer, answerCall (7 * nanosPerSec)] := by
    refine ⟨by decide, by decide, fun event hevent => ?_⟩
    simp only [List.mem_cons, List.not_mem_nil, or_false] at hevent
    obtain rfl | rfl | rfl := hevent
    · trivial
    · exact (rfl : "/api/info".toList.head? = some '/')
    · exact answerContent_plain
  have hforged : SigningState.Unforged infoCrypto (newYear.toNat * nanosPerSec) .start
      [.createSession 0 .nil (), .sign () infoAnswer, answerCall (7 * nanosPerSec)] := by
    refine ⟨trivial, trivial, ?_, trivial⟩
    intro signature entry _ _ _ _
    exact ⟨infoAnswer, List.mem_cons_self, infoAnswer_message _⟩
  have hchecked : verifyRequest infoCrypto (newYear.toNat * nanosPerSec) (7 * nanosPerSec)
      (infoSessions 0 []) answerRequest (JsonText.printNat 200) answerPath [] =
      (.ok (), infoSessions (7 * nanosPerSec) [(peerSession, 7 * nanosPerSec)]) :=
    (answerCall_checked (by decide +kernel) rfl).trans (if_neg (by decide))
  have hanswer : SigningState.answer infoCrypto (newYear.toNat * nanosPerSec)
      ⟨infoSessions 0 [], [((), infoAnswer)]⟩ (answerCall (7 * nanosPerSec)) = some (.ok ()) := by
    rw [answerCall, SigningState.answer, hchecked]
  obtain ⟨key, hsigned⟩ := hall infoCrypto _ _ hadm hforged
    [.createSession 0 .nil (), .sign () infoAnswer] _ _ _ _ _ [] rfl hanswer
  cases List.mem_singleton.mp hsigned

end Fixture

end VibeKanban.Relay
