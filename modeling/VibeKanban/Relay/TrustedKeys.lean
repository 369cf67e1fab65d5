import VibeKanban.Lib.Base64
import VibeKanban.Lib.Except
import VibeKanban.Lib.Tally
import VibeKanban.Lib.Text

/-! The file of trusted relay clients: registering, removing and loading their public keys. -/
namespace VibeKanban.Relay
open Lib

structure TrustedRelayClient (U : Type) where
  clientId : U
  clientName : String
  clientBrowser : String
  clientOs : String
  clientDevice : String
  publicKeyB64 : String
  deriving DecidableEq, Repr

inductive TrustedKeyAuthError where
  | unauthorized
  | badRequest (message : String)
  deriving DecidableEq, Repr

/-- The JSON text of the file, and the Ed25519 points among the strings of 32 bytes. -/
structure TrustedKeyCodec (U K : Type) where
  fromStr : String → Except String (List (TrustedRelayClient U))
  toStringPretty : List (TrustedRelayClient U) → String
  verifyingKey : List UInt8 → Option K
  fromStr_toStringPretty : ∀ clients, fromStr (toStringPretty clients ++ "\n") = .ok clients
  toStringPretty_not_blank : ∀ clients, isBlank (toStringPretty clients ++ "\n") = false
  verifyingKey_inj : ∀ {a b : List UInt8} {key : K},
    verifyingKey a = some key → verifyingKey b = some key → a = b

variable {U K : Type} (C : TrustedKeyCodec U K)

def parsePublicKeyBase64 (rawPublicKey : String) : Except TrustedKeyAuthError K :=
  match Base64.decode rawPublicKey with
  | none => .error .unauthorized
  | some bytes =>
    if bytes.length = 32 then
      match C.verifyingKey bytes with
      | none => .error .unauthorized
      | some key => .ok key
    else .error .unauthorized

def validateClient (client : TrustedRelayClient U) : Except TrustedKeyAuthError Unit :=
  if isBlank client.clientName then
    .error (.badRequest "Trusted key file contains invalid client name")
  else if isBlank client.clientBrowser then
    .error (.badRequest "Trusted key file contains invalid client browser")
  else if isBlank client.clientOs then
    .error (.badRequest "Trusted key file contains invalid client OS")
  else if isBlank client.clientDevice then
    .error (.badRequest "Trusted key file contains invalid client device")
  else
    match parsePublicKeyBase64 C client.publicKeyB64 with
    | .error _ => .error (.badRequest "Trusted key file contains invalid keys")
    | .ok _ => .ok ()

/-- The file is `none` when it does not exist. -/
def readTrustedClientsFile (file : Option String) :
    Except TrustedKeyAuthError (List (TrustedRelayClient U)) :=
  match file with
  | none => .ok []
  | some contents =>
    if isBlank contents then .ok []
    else
      match C.fromStr contents with
      | .error error => .error (.badRequest ("Trusted key file is invalid JSON: " ++ error))
      | .ok clients => do
        clients.forM (validateClient C)
        return clients

def writeTrustedClientsFile (clients : List (TrustedRelayClient U)) : Option String :=
  some (C.toStringPretty clients ++ "\n")

def listTrustedClients (file : Option String) :
    Except TrustedKeyAuthError (List (TrustedRelayClient U)) :=
  readTrustedClientsFile C file

def loadTrustedPublicKeys (file : Option String) : Except TrustedKeyAuthError (List K) := do
  let clients ← readTrustedClientsFile C file
  if clients.isEmpty then .error .unauthorized
  else clients.mapM fun client =>
    (parsePublicKeyBase64 C client.publicKeyB64).mapError fun _ => .unauthorized

variable {C}

theorem parsePublicKeyBase64_inj {a b : String} {key : K}
    (ha : parsePublicKeyBase64 C a = .ok key) (hb : parsePublicKeyBase64 C b = .ok key) : a = b := by
  unfold parsePublicKeyBase64 at ha hb
  split at ha
  · cases ha
  split at hb
  · cases hb
  rename_i _ hbytes _ _ hbytes'
  split_ifs at ha hb
  split at ha
  · cases ha
  split at hb
  · cases hb
  rename_i hkey _ _ hkey'
  obtain rfl := Except.ok.inj ha
  obtain rfl := Except.ok.inj hb
  obtain rfl := C.verifyingKey_inj hkey hkey'
  rw [← Base64.encode_of_decode hbytes, ← Base64.encode_of_decode hbytes']

theorem read_valid {file : Option String} {clients : List (TrustedRelayClient U)}
    (h : readTrustedClientsFile C file = .ok clients) :
    ∀ client ∈ clients, validateClient C client = .ok () := by
  unfold readTrustedClientsFile at h
  split at h
  · obtain rfl := Except.ok.inj h
    exact fun _ hmem => absurd hmem List.not_mem_nil
  · split_ifs at h
    · obtain rfl := Except.ok.inj h
      exact fun _ hmem => absurd hmem List.not_mem_nil
    · split at h
      · cases h
      · obtain ⟨_, hforM, heq⟩ := except_bind_iff.mp h
        obtain rfl := Except.ok.inj heq
        exact forM_ok_iff.mp hforM

theorem read_write {clients : List (TrustedRelayClient U)}
    (h : ∀ client ∈ clients, validateClient C client = .ok ()) :
    readTrustedClientsFile C (writeTrustedClientsFile C clients) = .ok clients := by
  simp only [readTrustedClientsFile, writeTrustedClientsFile, C.toStringPretty_not_blank,
    C.fromStr_toStringPretty, Bool.false_eq_true, if_false]
  exact except_bind_iff.mpr ⟨(), forM_ok_iff.mpr h, rfl⟩

theorem load_ok {file : Option String} {clients : List (TrustedRelayClient U)} {keys : List K}
    (hread : readTrustedClientsFile C file = .ok clients)
    (hload : loadTrustedPublicKeys C file = .ok keys) :
    List.Forall₂ (fun (client : TrustedRelayClient U) key =>
      parsePublicKeyBase64 C client.publicKeyB64 = .ok key) clients keys := by
  rw [loadTrustedPublicKeys, hread] at hload
  obtain ⟨_, heq, hload⟩ := except_bind_iff.mp hload
  obtain rfl := Except.ok.inj heq
  split_ifs at hload
  refine (mapM_ok_iff.mp hload).imp fun client key hkey => ?_
  cases hparse : parsePublicKeyBase64 C client.publicKeyB64 with
  | error _ => rw [hparse] at hkey; cases hkey
  | ok key' => rw [hparse] at hkey; exact hkey

variable (C)

/-- The first record that satisfies the condition is overwritten. -/
def replaceFirst {ρ : Type*} (p : ρ → Bool) (row : ρ) : List ρ → List ρ
  | [] => []
  | r :: rest => if p r then row :: rest else r :: replaceFirst p row rest

variable [DecidableEq U]

/-- The search of an upsert: the id or the key is that of the client. -/
def sameClient (client existing : TrustedRelayClient U) : Bool :=
  existing.clientId == client.clientId || existing.publicKeyB64 == client.publicKeyB64

/-- The answer, and the file afterwards. -/
def upsertTrustedClient (file : Option String) (client : TrustedRelayClient U) :
    Except TrustedKeyAuthError Bool × Option String :=
  match validateClient C client with
  | .error error => (.error error, file)
  | .ok _ =>
    match readTrustedClientsFile C file with
    | .error error => (.error error, file)
    | .ok clients =>
      if clients.any (sameClient client) then
        (.ok false, writeTrustedClientsFile C (replaceFirst (sameClient client) client clients))
      else (.ok true, writeTrustedClientsFile C (clients ++ [client]))

def removeTrustedClient (file : Option String) (clientId : U) :
    Except TrustedKeyAuthError Bool × Option String :=
  match readTrustedClientsFile C file with
  | .error error => (.error error, file)
  | .ok clients =>
    let kept := clients.filter fun client => client.clientId != clientId
    if kept.length = clients.length then (.ok false, file)
    else (.ok true, writeTrustedClientsFile C kept)

inductive TrustedCall (U : Type) where
  | upsert (client : TrustedRelayClient U)
  | remove (clientId : U)
  deriving DecidableEq, Repr

def trustedStep (file : Option String) :
    TrustedCall U → Except TrustedKeyAuthError Bool × Option String
  | .upsert client => upsertTrustedClient C file client
  | .remove clientId => removeTrustedClient C file clientId

def trustedRun (file : Option String) (calls : List (TrustedCall U)) : Option String :=
  calls.foldl (fun file call => (trustedStep C file call).2) file

def registered (call : TrustedCall U) (answer : Except TrustedKeyAuthError Bool) :
    List (TrustedRelayClient U) :=
  match call, answer with
  | .upsert client, .ok _ => [client]
  | _, _ => []

/-- The clients that the calls of a run registered, in order. -/
def registrations : Option String → List (TrustedCall U) → List (TrustedRelayClient U)
  | _, [] => []
  | file, call :: rest =>
    registered call (trustedStep C file call).1 ++ registrations (trustedStep C file call).2 rest

def lastRegistered (made : List (TrustedRelayClient U)) (clientId : U) :
    Option (TrustedRelayClient U) :=
  made.reverse.find? fun client => client.clientId == clientId

/-- The stored ids, keys and loaded keys are pairwise distinct. -/
def UniqueClients (file : Option String) : Prop :=
  ∃ clients, listTrustedClients C file = .ok clients ∧
    (clients.map (·.clientId)).Nodup ∧ (clients.map (·.publicKeyB64)).Nodup ∧
    ∀ keys, loadTrustedPublicKeys C file = .ok keys → keys.Nodup

/-- After a removal that succeeds the key last registered for the id is not loaded, as long as
nobody registers it. -/
def RevokedKeysGone (file : Option String) (calls : List (TrustedCall U)) : Prop :=
  ∀ before clientId later rest, calls = before ++ .remove clientId :: (later ++ rest) →
    (removeTrustedClient C (trustedRun C file before) clientId).1 = .ok true →
    ∃ client, lastRegistered (registrations C file before) clientId = some client ∧
      ((∀ r ∈ registrations C (trustedRun C file (before ++ [.remove clientId])) later,
          r.publicKeyB64 ≠ client.publicKeyB64) →
        ∀ key keys, parsePublicKeyBase64 C client.publicKeyB64 = .ok key →
          loadTrustedPublicKeys C (trustedRun C file (before ++ .remove clientId :: later)) =
            .ok keys → key ∉ keys)

/-- An upsert that is accepted finds its id and its key in at most one stored record. -/
def Unambiguous (file : Option String) : TrustedCall U → Prop
  | .remove _ => True
  | .upsert client => validateClient C client = .ok () →
      ∀ clients, listTrustedClients C file = .ok clients →
        clients.countP (sameClient client) ≤ 1

def UnambiguousRun : Option String → List (TrustedCall U) → Prop
  | _, [] => True
  | file, call :: rest =>
    Unambiguous C file call ∧ UnambiguousRun (trustedStep C file call).2 rest

variable {C}

section Replace
variable {ρ : Type*} {p : ρ → Bool} {row : ρ} {l : List ρ}

theorem replaceFirst_split (row : ρ) (h : l.any p = true) :
    ∃ as old bs, l = as ++ old :: bs ∧ (∀ r ∈ as, p r = false) ∧ p old = true ∧
      replaceFirst p row l = as ++ row :: bs := by
  induction l with
  | nil => cases h
  | cons r rest ih =>
    cases hp : p r with
    | true => exact ⟨[], r, rest, rfl, by simp, hp, by simp [replaceFirst, hp]⟩
    | false =>
      have hrest : rest.any p = true := by simpa [hp] using h
      obtain ⟨as, old, bs, rfl, has, hold, heq⟩ := ih hrest
      refine ⟨r :: as, old, bs, rfl, ?_, hold, ?_⟩
      · intro x hx
        obtain rfl | hx := List.mem_cons.mp hx
        · exact hp
        · exact has x hx
      · simp [replaceFirst, hp, heq]

/-- Where only one record satisfies the condition, the others are those that do not. -/
theorem replaceFirst_perm (h : l.any p = true) (hone : l.countP p ≤ 1) :
    (replaceFirst p row l).Perm (row :: l.filter fun r => !p r) := by
  obtain ⟨as, old, bs, rfl, has, hold, heq⟩ := replaceFirst_split row h
  have hbs : ∀ r ∈ bs, p r = false := by
    rw [List.countP_append, List.countP_cons_of_pos hold] at hone
    have hzero : bs.countP p = 0 := by omega
    intro r hr
    exact eq_false_of_ne_true (List.countP_eq_zero.mp hzero r hr)
  have hfilter : (as ++ old :: bs).filter (fun r => !p r) = as ++ bs := by
    rw [List.filter_append, List.filter_cons_of_neg (by simp [hold])]
    rw [List.filter_eq_self.mpr fun r hr => by simp [has r hr],
      List.filter_eq_self.mpr fun r hr => by simp [hbs r hr]]
  rw [heq, hfilter]
  exact List.perm_middle

end Replace

variable {file : Option String} {clients made : List (TrustedRelayClient U)}
  {client : TrustedRelayClient U} {calls : List (TrustedCall U)}

/-- The records after a valid client has been upserted. -/
def register (clients : List (TrustedRelayClient U)) (client : TrustedRelayClient U) :
    List (TrustedRelayClient U) :=
  if clients.any (sameClient client) then replaceFirst (sameClient client) client clients
  else clients ++ [client]

theorem upsert_invalid {error : TrustedKeyAuthError} (h : validateClient C client = .error error) :
    upsertTrustedClient C file client = (.error error, file) := by
  simp only [upsertTrustedClient, h]

theorem upsert_valid (h : validateClient C client = .ok ())
    (hread : readTrustedClientsFile C file = .ok clients) :
    (∃ answer, (upsertTrustedClient C file client).1 = .ok answer) ∧
      readTrustedClientsFile C (upsertTrustedClient C file client).2 =
        .ok (register clients client) := by
  have hvalid := read_valid hread
  simp only [upsertTrustedClient, h, hread, register]
  by_cases hany : clients.any (sameClient client) = true
  · rw [if_pos hany, if_pos hany]
    refine ⟨⟨false, rfl⟩, read_write ?_⟩
    obtain ⟨as, old, bs, rfl, _, _, heq⟩ := replaceFirst_split client hany
    rw [heq]
    intro c hc
    obtain hc | hc := List.mem_append.mp hc
    · exact hvalid c (List.mem_append_left _ hc)
    · obtain rfl | hc := List.mem_cons.mp hc
      · exact h
      · exact hvalid c (List.mem_append_right _ (List.mem_cons_of_mem _ hc))
  · rw [if_neg hany, if_neg hany]
    refine ⟨⟨true, rfl⟩, read_write ?_⟩
    intro c hc
    obtain hc | hc := List.mem_append.mp hc
    · exact hvalid c hc
    · rw [List.mem_singleton.mp hc]
      exact h

theorem remove_spec (hread : readTrustedClientsFile C file = .ok clients) (clientId : U) :
    readTrustedClientsFile C (removeTrustedClient C file clientId).2 =
        .ok (clients.filter fun client => client.clientId != clientId) ∧
      ((removeTrustedClient C file clientId).1 = .ok true ↔
        ∃ client ∈ clients, client.clientId = clientId) := by
  simp only [removeTrustedClient, hread]
  split_ifs with hlength
  · have hall := List.length_filter_eq_length_iff.mp hlength
    refine ⟨?_, fun h => (nomatch h), ?_⟩
    · rw [List.filter_eq_self.mpr hall, hread]
    · rintro ⟨client, hclient, rfl⟩
      simpa using hall client hclient
  · refine ⟨read_write fun c hc => read_valid hread c (List.mem_of_mem_filter hc), fun _ => ?_,
      fun _ => rfl⟩
    by_contra hnone
    push Not at hnone
    apply hlength
    rw [List.filter_eq_self.mpr fun c hc => by simpa using hnone c hc]

/-- What the stored clients have to do with the registrations made so far. -/
structure Ledger (made clients : List (TrustedRelayClient U)) : Prop where
  ids : (clients.map (·.clientId)).Nodup
  keys : (clients.map (·.publicKeyB64)).Nodup
  last : ∀ client ∈ clients, lastRegistered made client.clientId = some client

theorem lastRegistered_append (clientId : U) : lastRegistered (made ++ [client]) clientId =
    if client.clientId = clientId then some client else lastRegistered made clientId := by
  simp only [lastRegistered, List.reverse_append, List.reverse_singleton, List.singleton_append,
    List.find?_cons]
  by_cases h : client.clientId = clientId
  · simp [h]
  · simp [beq_eq_false_iff_ne.mpr h, h]

theorem sameClient_iff {existing : TrustedRelayClient U} : sameClient client existing = true ↔
    existing.clientId = client.clientId ∨ existing.publicKeyB64 = client.publicKeyB64 := by
  simp [sameClient]

/-- The records an unambiguous upsert leaves: the new one, and those that share nothing with it. -/
theorem upsert_perm (hone : clients.countP (sameClient client) ≤ 1) :
    (register clients client).Perm
      (client :: clients.filter fun existing => !sameClient client existing) := by
  unfold register
  split_ifs with hany
  · exact replaceFirst_perm hany hone
  · have hself : (clients.filter fun existing => !sameClient client existing) = clients := by
      rw [List.filter_eq_self]
      intro existing hmem
      rw [Bool.not_eq_true', ← Bool.not_eq_true]
      exact fun h => hany (List.any_eq_true.mpr ⟨existing, hmem, h⟩)
    rw [hself]
    exact List.perm_append_singleton client clients

theorem Ledger.upsert (h : Ledger made clients)
    (hone : clients.countP (sameClient client) ≤ 1) :
    Ledger (made ++ [client]) (register clients client) := by
  have hperm := upsert_perm hone
  have hother : ∀ existing ∈ clients.filter (fun existing => !sameClient client existing),
      existing.clientId ≠ client.clientId ∧ existing.publicKeyB64 ≠ client.publicKeyB64 := by
    intro existing hmem
    have hne := (List.mem_filter.mp hmem).2
    rw [Bool.not_eq_true', ← Bool.not_eq_true, sameClient_iff] at hne
    push Not at hne
    exact hne
  refine ⟨?_, ?_, ?_⟩
  · rw [(hperm.map _).nodup_iff, List.map_cons, List.nodup_cons]
    refine ⟨fun hmem => ?_, h.ids.sublist (List.filter_sublist.map _)⟩
    obtain ⟨existing, hexisting, heq⟩ := List.mem_map.mp hmem
    exact (hother existing hexisting).1 heq
  · rw [(hperm.map _).nodup_iff, List.map_cons, List.nodup_cons]
    refine ⟨fun hmem => ?_, h.keys.sublist (List.filter_sublist.map _)⟩
    obtain ⟨existing, hexisting, heq⟩ := List.mem_map.mp hmem
    exact (hother existing hexisting).2 heq
  · intro existing hmem
    rw [lastRegistered_append]
    obtain rfl | hmem := List.mem_cons.mp (hperm.mem_iff.mp hmem)
    · rw [if_pos rfl]
    · rw [if_neg (hother existing hmem).1.symm]
      exact h.last existing (List.mem_of_mem_filter hmem)

theorem Ledger.remove (h : Ledger made clients) (clientId : U) :
    Ledger made (clients.filter fun client => client.clientId != clientId) where
  ids := h.ids.sublist (List.filter_sublist.map _)
  keys := h.keys.sublist (List.filter_sublist.map _)
  last client hmem := h.last client (List.mem_of_mem_filter hmem)

/-- A step keeps the ledger. -/
theorem Ledger.step (h : Ledger made clients) (hread : readTrustedClientsFile C file = .ok clients)
    {call : TrustedCall U} (hcall : Unambiguous C file call) :
    ∃ clients', readTrustedClientsFile C (trustedStep C file call).2 = .ok clients' ∧
      Ledger (made ++ registered call (trustedStep C file call).1) clients' := by
  cases call with
  | remove clientId =>
    refine ⟨_, (remove_spec hread clientId).1, ?_⟩
    have hnone : registered (.remove clientId)
        (trustedStep C file (.remove clientId)).1 = [] := rfl
    rw [hnone, List.append_nil]
    exact h.remove clientId
  | upsert client =>
    cases hvalid : validateClient C client with
    | error error =>
      simp only [trustedStep, upsert_invalid hvalid]
      exact ⟨clients, hread, by simpa [registered] using h⟩
    | ok =>
      obtain ⟨⟨answer, hanswer⟩, hread'⟩ := upsert_valid hvalid hread
      refine ⟨_, hread', ?_⟩
      have hmade : registered (.upsert client) (trustedStep C file (.upsert client)).1 =
          [client] := by simp only [trustedStep, hanswer, registered]
      rw [hmade]
      exact h.upsert (hcall hvalid clients hread)

theorem trustedRun_append (before later : List (TrustedCall U)) :
    trustedRun C file (before ++ later) = trustedRun C (trustedRun C file before) later :=
  List.foldl_append

theorem unambiguousRun_append (before later : List (TrustedCall U)) :
    UnambiguousRun C file (before ++ later) ↔
      UnambiguousRun C file before ∧ UnambiguousRun C (trustedRun C file before) later := by
  induction before generalizing file with
  | nil => exact ⟨fun h => ⟨trivial, h⟩, fun h => h.2⟩
  | cons call rest ih =>
    simp only [List.cons_append, UnambiguousRun, ih, and_assoc]
    rfl

/-- Every state of an unambiguous run has a ledger. -/
theorem Ledger.run (h : Ledger made clients) (hread : readTrustedClientsFile C file = .ok clients)
    (hrun : UnambiguousRun C file calls) :
    ∃ clients', readTrustedClientsFile C (trustedRun C file calls) = .ok clients' ∧
      Ledger (made ++ registrations C file calls) clients' := by
  induction calls generalizing file clients made with
  | nil => exact ⟨clients, hread, by simpa [registrations] using h⟩
  | cons call rest ih =>
    obtain ⟨clients', hread', h'⟩ := h.step hread hrun.1
    obtain ⟨clients'', hread'', h''⟩ := ih h' hread' hrun.2
    refine ⟨clients'', hread'', ?_⟩
    rw [registrations, ← List.append_assoc]
    exact h''

theorem Ledger.unique (h : Ledger made clients)
    (hread : readTrustedClientsFile C file = .ok clients) : UniqueClients C file := by
  refine ⟨clients, hread, h.ids, h.keys, ?_⟩
  intro keys hload
  have hloaded := load_ok hread hload
  have hkeys := h.keys
  clear h hread hload
  induction hloaded with
  | nil => exact List.nodup_nil
  | @cons client key rest keys hkey hrest ih =>
    rw [List.map_cons, List.nodup_cons] at hkeys
    refine List.nodup_cons.mpr ⟨fun hmem => ?_, ih hkeys.2⟩
    obtain ⟨other, hother, hparse⟩ := exists_of_forall₂_right hrest hmem
    rw [parsePublicKeyBase64_inj hkey hparse] at hkeys
    exact hkeys.1 (List.mem_map_of_mem hother)

/-- An upsert that finds two records leaves two with the same id or the same key. -/
theorem unambiguous_of_unique (hread : readTrustedClientsFile C file = .ok clients)
    {call : TrustedCall U} (hunique : UniqueClients C (trustedStep C file call).2) :
    Unambiguous C file call := by
  cases call with
  | remove _ => trivial
  | upsert client =>
    intro hvalid clients' hlist
    obtain rfl := Except.ok.inj (hread.symm.trans hlist)
    by_contra htwo
    have hany : clients.any (sameClient client) = true := by
      have hpos : 0 < clients.countP (sameClient client) := by omega
      obtain ⟨existing, hmem, hsame⟩ := List.countP_pos_iff.mp hpos
      exact List.any_eq_true.mpr ⟨existing, hmem, hsame⟩
    have hread' := (upsert_valid hvalid hread).2
    rw [register, if_pos hany] at hread'
    obtain ⟨as, old, bs, rfl, has, hold, heq⟩ := replaceFirst_split client hany
    obtain ⟨stored, hstored, hids, hkeys, _⟩ := hunique
    obtain rfl := Except.ok.inj (hread'.symm.trans hstored)
    rw [heq] at hids hkeys
    have hzero : as.countP (sameClient client) = 0 :=
      List.countP_eq_zero.mpr fun r hr => by simp [has r hr]
    rw [List.countP_append, hzero, List.countP_cons_of_pos hold] at htwo
    have hpos : 0 < bs.countP (sameClient client) := by omega
    obtain ⟨other, hother, hsame⟩ := List.countP_pos_iff.mp hpos
    rw [List.map_append, List.map_cons] at hids hkeys
    obtain hid | hkey := sameClient_iff.mp hsame
    · have hnot := (List.nodup_cons.mp hids.of_append_right).1
      exact hnot (hid ▸ List.mem_map_of_mem hother)
    · have hnot := (List.nodup_cons.mp hkeys.of_append_right).1
      exact hnot (hkey ▸ List.mem_map_of_mem hother)

theorem trustedStep_reads (hread : readTrustedClientsFile C file = .ok clients)
    (call : TrustedCall U) :
    ∃ clients', readTrustedClientsFile C (trustedStep C file call).2 = .ok clients' ∧
      ∀ c ∈ clients', c ∈ clients ∨ c ∈ registered call (trustedStep C file call).1 := by
  cases call with
  | remove clientId =>
    exact ⟨_, (remove_spec hread clientId).1, fun c hc => Or.inl (List.mem_of_mem_filter hc)⟩
  | upsert client =>
    cases hvalid : validateClient C client with
    | error error =>
      simp only [trustedStep, upsert_invalid hvalid]
      exact ⟨clients, hread, fun c hc => Or.inl hc⟩
    | ok =>
      obtain ⟨⟨answer, hanswer⟩, hread'⟩ := upsert_valid hvalid hread
      refine ⟨_, hread', ?_⟩
      have hmade : registered (.upsert client) (trustedStep C file (.upsert client)).1 =
          [client] := by simp only [trustedStep, hanswer, registered]
      intro c hc
      rw [hmade, List.mem_singleton]
      unfold register at hc
      split_ifs at hc with hany
      · obtain ⟨as, old, bs, rfl, _, _, heq⟩ := replaceFirst_split client hany
        rw [heq] at hc
        simp only [List.mem_append, List.mem_cons] at hc ⊢
        tauto
      · simpa using hc

/-- What holds of the stored clients and of all that are registered goes on to hold. -/
theorem stored_run {P : TrustedRelayClient U → Prop}
    (hread : readTrustedClientsFile C file = .ok clients) (hstored : ∀ c ∈ clients, P c)
    (hmade : ∀ r ∈ registrations C file calls, P r) :
    ∃ clients', readTrustedClientsFile C (trustedRun C file calls) = .ok clients' ∧
      ∀ c ∈ clients', P c := by
  induction calls generalizing file clients with
  | nil => exact ⟨clients, hread, hstored⟩
  | cons call rest ih =>
    obtain ⟨clients', hread', hfrom⟩ := trustedStep_reads hread call
    rw [registrations, List.forall_mem_append] at hmade
    refine ih hread' (fun c hc => ?_) hmade.2
    obtain hold | hnew := hfrom c hc
    · exact hstored c hold
    · exact hmade.1 c hnew

theorem Ledger.revoked (h : Ledger made clients)
    (hread : readTrustedClientsFile C file = .ok clients) (hmade : made = [])
    (hrun : UnambiguousRun C file calls) : RevokedKeysGone C file calls := by
  subst hmade
  intro before clientId later rest hcalls hremoved
  rw [hcalls, unambiguousRun_append] at hrun
  obtain ⟨stored, hstored, hledger⟩ := h.run hread hrun.1
  rw [List.nil_append] at hledger
  obtain ⟨hread', hfound⟩ := remove_spec hstored clientId
  obtain ⟨client, hclient, rfl⟩ := hfound.mp hremoved
  refine ⟨client, hledger.last client hclient, ?_⟩
  intro hfresh key keys hkey hload hmem
  -- no other stored record has the key, since the keys were distinct before the removal
  have habsent : ∀ c ∈ stored.filter (fun c => c.clientId != client.clientId),
      c.publicKeyB64 ≠ client.publicKeyB64 := by
    intro c hc heq
    obtain ⟨hcmem, hne⟩ := List.mem_filter.mp hc
    have hsame := List.inj_on_of_nodup_map hledger.keys hcmem hclient heq
    simp [hsame] at hne
  have hfile : trustedRun C file (before ++ [.remove client.clientId]) =
      (removeTrustedClient C (trustedRun C file before) client.clientId).2 :=
    trustedRun_append before [.remove client.clientId]
  rw [hfile] at hfresh
  obtain ⟨final, hfinal, hgone⟩ := stored_run hread' habsent hfresh
  have hend : trustedRun C file (before ++ .remove client.clientId :: later) =
      trustedRun C (removeTrustedClient C (trustedRun C file before) client.clientId).2 later :=
    trustedRun_append before (.remove client.clientId :: later)
  rw [hend] at hload
  obtain ⟨c, hc, hparse⟩ := exists_of_forall₂_right (load_ok hfinal hload) hmem
  exact hgone c hc (parsePublicKeyBase64_inj hparse hkey)

/-- Ids and keys are distinct in every state of a run exactly when no upsert finds two records, and
in such a run a removed client's key is not loaded until it is registered again. -/
theorem trusted_clients_unique (C : TrustedKeyCodec U K) (file : Option String)
    (hempty : listTrustedClients C file = .ok []) (calls : List (TrustedCall U)) :
    ((∀ before, before <+: calls → UniqueClients C (trustedRun C file before)) ↔
        UnambiguousRun C file calls) ∧
      (UnambiguousRun C file calls → RevokedKeysGone C file calls) := by
  have hstart : Ledger (U := U) [] [] := ⟨List.nodup_nil, List.nodup_nil, by simp⟩
  refine ⟨⟨fun h => ?_, fun h before hbefore => ?_⟩, hstart.revoked hempty rfl⟩
  · have hfirst : ∃ clients, readTrustedClientsFile C file = .ok clients := ⟨[], hempty⟩
    clear hempty
    induction calls generalizing file with
    | nil => trivial
    | cons call rest ih =>
      obtain ⟨clients, hread⟩ := hfirst
      refine ⟨unambiguous_of_unique hread (h [call] (by simp)), ih _ ?_ ?_⟩
      · intro before hbefore
        exact h (call :: before) (List.cons_prefix_cons.mpr ⟨rfl, hbefore⟩)
      · obtain ⟨clients', hread', _⟩ := trustedStep_reads hread call
        exact ⟨clients', hread'⟩
  · obtain ⟨later, rfl⟩ := hbefore
    obtain ⟨clients, hread, hledger⟩ :=
      hstart.run hempty ((unambiguousRun_append before later).mp h).1
    exact hledger.unique hread

theorem remove_run {before : List (TrustedCall U)}
    (hread : readTrustedClientsFile C (trustedRun C file before) = .ok clients) (clientId : U) :
    readTrustedClientsFile C (trustedRun C file (before ++ [.remove clientId])) =
      .ok (clients.filter fun client => client.clientId != clientId) := by
  rw [trustedRun_append]
  exact (remove_spec hread clientId).1

theorem upserts_run {valid : List (TrustedRelayClient U)}
    (hread : readTrustedClientsFile C file = .ok clients)
    (hvalid : ∀ client ∈ valid, validateClient C client = .ok ()) :
    readTrustedClientsFile C (trustedRun C file (valid.map .upsert)) =
        .ok (valid.foldl register clients) ∧
      registrations C file (valid.map .upsert) = valid := by
  induction valid generalizing file clients with
  | nil => exact ⟨hread, rfl⟩
  | cons client rest ih =>
    rw [List.forall_mem_cons] at hvalid
    obtain ⟨⟨answer, hanswer⟩, hread'⟩ := upsert_valid hvalid.1 hread
    obtain ⟨hrun, hmade⟩ := ih hread' hvalid.2
    refine ⟨hrun, ?_⟩
    have hone : registered (.upsert client) (trustedStep C file (.upsert client)).1 = [client] := by
      simp only [trustedStep, hanswer, registered]
    rw [List.map_cons, registrations, hone]
    exact congrArg (client :: ·) hmade

section Fixture

instance : Encodable (TrustedRelayClient ℕ) :=
  Encodable.ofLeftInverse
    (fun c => (c.clientId, c.clientName, c.clientBrowser, c.clientOs, c.clientDevice,
      c.publicKeyB64))
    (fun (id, name, browser, os, device, key) => ⟨id, name, browser, os, device, key⟩)
    fun _ => rfl

/-- The points with the y-coordinates 0 and 1. -/
def zeroKey : String := "AAAAAAAAAAAAAAAAAAAAAAAAAAAAAAAAAAAAAAAAAAA="
def oneKey : String := "AQAAAAAAAAAAAAAAAAAAAAAAAAAAAAAAAAAAAAAAAAA="

def laptop (clientId : ℕ) (key : String) : TrustedRelayClient ℕ :=
  ⟨clientId, "Chrome on macOS (Desktop)", "Chrome", "macOS", "desktop", key⟩

def laptopLines (uuid key : String) : List (List Char) :=
  ["    \x7b".toList,
    "      \"client_id\": \"".toList ++ uuid.toList ++ "\",".toList,
    "      \"client_name\": \"Chrome on macOS (Desktop)\",".toList,
    "      \"client_browser\": \"Chrome\",".toList,
    "      \"client_os\": \"macOS\",".toList,
    "      \"client_device\": \"desktop\",".toList,
    "      \"public_key_b64\": \"".toList ++ key.toList ++ "\"".toList]

def fileLines (items : List (List Char)) : List Char :=
  ['\n'].intercalate (["\x7b".toList, "  \"clients\": [".toList] ++ items ++
    ["  ]".toList, "\x7d".toList])

def firstUuid : String := "00000000-0000-0000-0000-000000000001"
def secondUuid : String := "00000000-0000-0000-0000-000000000002"

/-- The texts of the files in the runs below. -/
def sampleFiles : List (List (TrustedRelayClient ℕ) × List Char) :=
  [([], "\x7b\n  \"clients\": []\n\x7d".toList),
    ([laptop 1 zeroKey], fileLines (laptopLines firstUuid zeroKey ++ ["    \x7d".toList])),
    ([laptop 1 zeroKey, laptop 2 oneKey],
      fileLines (laptopLines firstUuid zeroKey ++ ["    \x7d,".toList] ++
        laptopLines secondUuid oneKey ++ ["    \x7d".toList])),
    ([laptop 1 oneKey, laptop 2 oneKey],
      fileLines (laptopLines firstUuid oneKey ++ ["    \x7d,".toList] ++
        laptopLines secondUuid oneKey ++ ["    \x7d".toList])),
    ([laptop 2 oneKey], fileLines (laptopLines secondUuid oneKey ++ ["    \x7d".toList]))]

theorem sampleFiles_nodup : (sampleFiles.map Prod.snd).Nodup := by
  unfold sampleFiles fileLines laptopLines zeroKey oneKey firstUuid secondUuid
  repeat rw [String.toList_ofList]
  decide +kernel

theorem sampleFiles_mark : ∀ entry ∈ sampleFiles, entry.2.head? ≠ some 'x' := by decide +kernel

theorem sampleFiles_brace : ∀ entry ∈ sampleFiles, '\x7b' ∈ entry.2 := by decide +kernel

theorem sampleFiles_visible (clients : List (TrustedRelayClient ℕ)) :
    ∃ c ∈ writeKnown sampleFiles (marks 'x') clients, isWhitespace c = false := by
  apply forall_writeKnown (P := fun text => ∃ c ∈ text, isWhitespace c = false)
  · exact fun entry hentry => ⟨'\x7b', sampleFiles_brace entry hentry, by decide⟩
  · exact fun n => ⟨'x', mem_marks 'x' n, by decide⟩

/-- The usual JSON texts for the files above, and other texts elsewhere. -/
def sampleKeyCodec : TrustedKeyCodec ℕ (List UInt8) where
  fromStr text := ((readKnown sampleFiles markCount text.toList.dropLast).elim (.error "") .ok)
  toStringPretty clients := String.ofList (writeKnown sampleFiles (marks 'x') clients)
  verifyingKey bytes := some bytes
  fromStr_toStringPretty clients := by
    have hread := readKnown_writeKnown sampleFiles_nodup
      (fun entry hentry => marks_ne (sampleFiles_mark entry hentry)) (markCount_marks 'x') clients
    have hchars : ("\n" : String).toList = ['\n'] := rfl
    rw [String.toList_append, String.toList_ofList, hchars, List.dropLast_concat, hread]
    rfl
  toStringPretty_not_blank clients := by
    obtain ⟨c, hc, hspace⟩ := sampleFiles_visible clients
    refine not_blank_of_mem ?_ hspace
    rw [String.toList_append, String.toList_ofList]
    exact List.mem_append_left _ hc
  verifyingKey_inj ha hb := (Option.some.inj ha).trans (Option.some.inj hb).symm

/-- The first client is registered again with the key of the second one. -/
def takeOver : List (TrustedCall ℕ) :=
  [laptop 1 zeroKey, laptop 2 oneKey, laptop 1 oneKey].map .upsert

theorem zeroKey_bytes : parsePublicKeyBase64 sampleKeyCodec zeroKey = .ok (List.replicate 32 0) := by
  have hkey : Base64.encode (List.replicate 32 0) = zeroKey :=
    congrArg String.ofList (by decide +kernel)
  rw [← hkey, parsePublicKeyBase64, Base64.decode_encode]
  rfl

theorem oneKey_bytes :
    parsePublicKeyBase64 sampleKeyCodec oneKey = .ok (1 :: List.replicate 31 0) := by
  have hkey : Base64.encode (1 :: List.replicate 31 0) = oneKey :=
    congrArg String.ofList (by decide +kernel)
  rw [← hkey, parsePublicKeyBase64, Base64.decode_encode]
  rfl

theorem laptop_validates {clientId : ℕ} {key : String} {bytes : List UInt8}
    (h : parsePublicKeyBase64 sampleKeyCodec key = .ok bytes) :
    validateClient sampleKeyCodec (laptop clientId key) = .ok () := by
  have hname : isBlank "Chrome on macOS (Desktop)" = false := by decide +kernel
  have hbrowser : isBlank "Chrome" = false := by decide +kernel
  have hos : isBlank "macOS" = false := by decide +kernel
  have hdevice : isBlank "desktop" = false := by decide +kernel
  simp only [validateClient, laptop, hname, hbrowser, hos, hdevice, h]
  rfl

theorem laptop_valid : ∀ client ∈ [laptop 1 zeroKey, laptop 2 oneKey, laptop 1 oneKey],
    validateClient sampleKeyCodec client = .ok () := by
  intro client hclient
  simp only [List.mem_cons, List.not_mem_nil, or_false] at hclient
  obtain rfl | rfl | rfl := hclient
  · exact laptop_validates zeroKey_bytes
  · exact laptop_validates oneKey_bytes
  · exact laptop_validates oneKey_bytes

theorem takeOver_list : listTrustedClients sampleKeyCodec (trustedRun sampleKeyCodec none takeOver) =
      .ok [laptop 1 oneKey, laptop 2 oneKey] ∧
    lastRegistered (registrations sampleKeyCodec none takeOver) 1 = some (laptop 1 oneKey) := by
  obtain ⟨hread, hmade⟩ := @upserts_run _ _ sampleKeyCodec _ none _ _ rfl laptop_valid
  have hclients : [laptop 1 zeroKey, laptop 2 oneKey, laptop 1 oneKey].foldl register [] =
      [laptop 1 oneKey, laptop 2 oneKey] := by decide
  rw [hclients] at hread
  refine ⟨hread, ?_⟩
  rw [takeOver, hmade]
  decide

/-- Two records have the key afterwards, and it is still loaded when the id it was registered for
last has been removed. -/
theorem trusted_clients_take_over :
    listTrustedClients sampleKeyCodec (trustedRun sampleKeyCodec none takeOver) =
        .ok [laptop 1 oneKey, laptop 2 oneKey] ∧
      ¬ UniqueClients sampleKeyCodec (trustedRun sampleKeyCodec none takeOver) ∧
      (removeTrustedClient sampleKeyCodec (trustedRun sampleKeyCodec none takeOver) 1).1 =
        .ok true ∧
      lastRegistered (registrations sampleKeyCodec none takeOver) 1 = some (laptop 1 oneKey) ∧
      parsePublicKeyBase64 sampleKeyCodec oneKey = .ok (1 :: List.replicate 31 0) ∧
      loadTrustedPublicKeys sampleKeyCodec
        (trustedRun sampleKeyCodec none (takeOver ++ [.remove 1])) =
          .ok [1 :: List.replicate 31 0] := by
  obtain ⟨hlist, hlast⟩ := takeOver_list
  have hkey := oneKey_bytes
  refine ⟨hlist, ?_, ?_, hlast, hkey, ?_⟩
  · rintro ⟨clients, hclients, _, hkeys, _⟩
    obtain rfl := Except.ok.inj (hlist.symm.trans hclients)
    exact absurd hkeys (by decide)
  · exact (remove_spec hlist 1).2.mpr ⟨laptop 1 oneKey, List.mem_cons_self, rfl⟩
  · have hremoved := remove_run hlist 1
    have hkept : [laptop 1 oneKey, laptop 2 oneKey].filter (fun c => c.clientId != 1) =
        [laptop 2 oneKey] := by decide
    rw [hkept] at hremoved
    have hparse : (parsePublicKeyBase64 sampleKeyCodec (laptop 2 oneKey).publicKeyB64).mapError
        (fun _ => TrustedKeyAuthError.unauthorized) = .ok (1 :: List.replicate 31 0) := by
      rw [show (laptop 2 oneKey).publicKeyB64 = oneKey from rfl, hkey]
      rfl
    rw [loadTrustedPublicKeys, hremoved]
    refine except_bind_iff.mpr ⟨_, rfl, ?_⟩
    exact mapM_ok_iff.mpr (List.Forall₂.cons hparse List.Forall₂.nil)

/-- A client is registered and removed. -/
theorem trusted_clients_unique_laptop :
    UniqueClients sampleKeyCodec
        (trustedRun sampleKeyCodec none [.upsert (laptop 1 zeroKey), .remove 1]) ∧
      RevokedKeysGone sampleKeyCodec none [.upsert (laptop 1 zeroKey), .remove 1] := by
  have hrun : UnambiguousRun sampleKeyCodec none [.upsert (laptop 1 zeroKey), .remove 1] := by
    refine ⟨fun _ clients hclients => ?_, trivial, trivial⟩
    obtain rfl := Except.ok.inj hclients
    exact Nat.zero_le _
  obtain ⟨hunique, hrevoked⟩ := trusted_clients_unique sampleKeyCodec none rfl
    [.upsert (laptop 1 zeroKey), .remove 1]
  exact ⟨hunique.mpr hrun _ (List.prefix_refl _), hrevoked hrun⟩

end Fixture

end VibeKanban.Relay
