import Mathlib.Data.List.Permutation
import VibeKanban.Lib.Machine
import VibeKanban.Relay.TrustedKeys

/-! Concurrent calls on the file of trusted clients: each reads the file and, in a later step, writes
it. -/
namespace VibeKanban.Relay
open Lib

variable {U K : Type}

/-- A call with this answer writes the file. -/
def TrustedCall.writes : TrustedCall U → Except TrustedKeyAuthError Bool → Bool
  | .upsert _, .ok _ => true
  | .remove _, .ok removed => removed
  | _, .error _ => false

/-- The file, the calls that have read it and are to write it, and those that have answered. -/
structure TrustedFile (U : Type) where
  file : Option String
  pending : List (TrustedCall U × Option String)
  answered : List (TrustedCall U × Except TrustedKeyAuthError Bool)

inductive TrustedFileEvent (U : Type) where
  | read (call : TrustedCall U)
  | write (pending : ℕ)

variable [DecidableEq U] (C : TrustedKeyCodec U K)

namespace TrustedFile

def step (s : TrustedFile U) : TrustedFileEvent U → Option (TrustedFile U)
  | .read call =>
    let answer := (trustedStep C s.file call).1
    if call.writes answer then some { s with pending := s.pending ++ [(call, s.file)] }
    else some { s with answered := s.answered ++ [(call, answer)] }
  | .write i => do
    let (call, contents) ← s.pending[i]?
    let (answer, file) := trustedStep C contents call
    return ⟨file, s.pending.eraseIdx i, s.answered ++ [(call, answer)]⟩

/-- The file is still as the call that writes it has read it. -/
def Current (s : TrustedFile U) : TrustedFileEvent U → Prop
  | .read _ => True
  | .write i => ∀ entry ∈ s.pending[i]?, entry.2 = s.file

end TrustedFile

/-- The answers of calls made one after the other. -/
def trustedAnswers : Option String → List (TrustedCall U) →
    List (TrustedCall U × Except TrustedKeyAuthError Bool)
  | _, [] => []
  | file, call :: rest =>
    (call, (trustedStep C file call).1) :: trustedAnswers (trustedStep C file call).2 rest

def callsOf (events : List (TrustedFileEvent U)) : List (TrustedCall U) :=
  events.filterMap fun
    | .read call => some call
    | .write _ => none

variable {C} {file : Option String} {s s' : TrustedFile U}

theorem trustedAnswers_append (before later : List (TrustedCall U)) :
    trustedAnswers C file (before ++ later) =
      trustedAnswers C file before ++ trustedAnswers C (trustedRun C file before) later := by
  induction before generalizing file with
  | nil => rfl
  | cons call rest ih =>
    simp only [List.cons_append, trustedAnswers, ih]
    rfl

theorem trustedAnswers_calls (calls : List (TrustedCall U)) :
    (trustedAnswers C file calls).map Prod.fst = calls := by
  induction calls generalizing file with
  | nil => rfl
  | cons call rest ih => rw [trustedAnswers, List.map_cons, ih]

/-- A call that does not write leaves the file as it is. -/
theorem trustedStep_of_not_writes {call : TrustedCall U}
    (h : call.writes (trustedStep C file call).1 = false) : (trustedStep C file call).2 = file := by
  cases call with
  | upsert client =>
    simp only [trustedStep, upsertTrustedClient] at h ⊢
    split at h
    · rfl
    · split at h
      · rfl
      · split_ifs at h <;> cases h
  | remove clientId =>
    simp only [trustedStep, removeTrustedClient] at h ⊢
    split at h
    · rfl
    · split_ifs at h ⊢ with hlength
      · rfl
      · cases h

/-- The calls that have answered went one after the other. -/
structure Serial (C : TrustedKeyCodec U K) (start : Option String) (s : TrustedFile U) : Prop where
  file : s.file = trustedRun C start (s.answered.map Prod.fst)
  answers : s.answered = trustedAnswers C start (s.answered.map Prod.fst)

variable {start : Option String}

theorem Serial.answer (h : Serial C start s) (call : TrustedCall U)
    (pending : List (TrustedCall U × Option String)) :
    Serial C start ⟨(trustedStep C s.file call).2, pending,
      s.answered ++ [(call, (trustedStep C s.file call).1)]⟩ where
  file := by
    rw [List.map_append, trustedRun_append, ← h.file]
    rfl
  answers := by
    rw [List.map_append, trustedAnswers_append, ← h.answers, ← h.file]
    rfl

theorem Serial.step (h : Serial C start s) {event : TrustedFileEvent U} (hok : s.Current event)
    (hstep : s.step C event = some s') : Serial C start s' := by
  cases event with
  | read call =>
    simp only [TrustedFile.step] at hstep
    split_ifs at hstep with hwrites
    · obtain rfl := Option.some.inj hstep
      exact ⟨h.file, h.answers⟩
    · obtain rfl := Option.some.inj hstep
      have hfile := trustedStep_of_not_writes (Bool.eq_false_iff.mpr hwrites)
      have hanswer := h.answer call s.pending
      rw [hfile] at hanswer
      exact hanswer
  | write i =>
    obtain ⟨⟨call, contents⟩, hentry, hs'⟩ := Option.bind_eq_some_iff.mp hstep
    obtain rfl : contents = s.file := hok _ hentry
    obtain rfl := Option.some.inj hs'
    exact h.answer call (s.pending.eraseIdx i)

/-- The calls that have read the file. -/
def TrustedFile.calls (s : TrustedFile U) : List (TrustedCall U) :=
  s.answered.map Prod.fst ++ s.pending.map Prod.fst

theorem calls_step {event : TrustedFileEvent U} (hstep : s.step C event = some s') :
    s'.calls.Perm (s.calls ++ callsOf [event]) := by
  cases event with
  | read call =>
    have hcall : callsOf [TrustedFileEvent.read call] = [call] := rfl
    simp only [TrustedFile.step] at hstep
    split_ifs at hstep
    · obtain rfl := Option.some.inj hstep
      simp [TrustedFile.calls, hcall]
    · obtain rfl := Option.some.inj hstep
      simp only [TrustedFile.calls, hcall, List.map_append, List.map_singleton, List.append_assoc]
      exact List.Perm.append_left _ List.perm_append_comm
  | write i =>
    have hcall : callsOf [TrustedFileEvent.write (U := U) i] = [] := rfl
    obtain ⟨entry, hentry, hs'⟩ := Option.bind_eq_some_iff.mp hstep
    obtain rfl := Option.some.inj hs'
    obtain ⟨hlt, hget⟩ := List.getElem?_eq_some_iff.mp hentry
    have hperm := (List.getElem_cons_eraseIdx_perm hlt).map Prod.fst
    rw [hget, List.map_cons] at hperm
    simp only [TrustedFile.calls, hcall, List.map_append, List.map_singleton, List.append_assoc,
      List.append_nil, List.singleton_append]
    exact List.Perm.append_left _ hperm

theorem calls_run {events : List (TrustedFileEvent U)}
    (hrun : Run (TrustedFile.step C) TrustedFile.Current s events s') :
    s'.calls.Perm (s.calls ++ callsOf events) := by
  induction hrun with
  | nil s => simp [callsOf]
  | @cons s mid s' event rest _ hstep _ ih =>
    have hsplit : callsOf (event :: rest) = callsOf [event] ++ callsOf rest := by cases event <;> rfl
    rw [hsplit, ← List.append_assoc]
    exact ih.trans ((calls_step hstep).append_right _)

/-- What is registered comes from the upserts among the calls. -/
theorem registrations_from {calls : List (TrustedCall U)} {client : TrustedRelayClient U}
    (h : client ∈ registrations C file calls) : .upsert client ∈ calls := by
  induction calls generalizing file with
  | nil => cases h
  | cons call rest ih =>
    obtain hfirst | hrest := List.mem_append.mp h
    · cases call with
      | remove clientId => cases hfirst
      | upsert other =>
        unfold registered at hfirst
        split at hfirst
        · rename_i heq _
          obtain rfl := TrustedCall.upsert.inj heq
          rw [List.mem_singleton.mp hfirst]
          exact List.mem_cons_self
        · cases hfirst
    · exact List.mem_cons_of_mem _ (ih hrest)

/-- A client that a removal has found is not stored until it is upserted again. -/
theorem removed_stays_out {before later : List (TrustedCall U)} {clientId : U}
    (hremoved : (trustedStep C (trustedRun C start before) (.remove clientId)).1 = .ok true)
    (hlater : ∀ client, .upsert client ∈ later → client.clientId ≠ clientId)
    {clients : List (TrustedRelayClient U)}
    (hlist : listTrustedClients C (trustedRun C start (before ++ .remove clientId :: later)) =
      .ok clients) : ∀ client ∈ clients, client.clientId ≠ clientId := by
  cases hread : readTrustedClientsFile C (trustedRun C start before) with
  | error error => simp [trustedStep, removeTrustedClient, hread] at hremoved
  | ok stored =>
    have hkept := (remove_spec hread clientId).1
    have hgone : ∀ client ∈ stored.filter (fun client => client.clientId != clientId),
        client.clientId ≠ clientId := by
      intro client hclient
      simpa using (List.mem_filter.mp hclient).2
    obtain ⟨final, hfinal, hout⟩ := stored_run hkept hgone fun r hr => hlater r (registrations_from hr)
    have hend : trustedRun C start (before ++ .remove clientId :: later) =
        trustedRun C (removeTrustedClient C (trustedRun C start before) clientId).2 later :=
      trustedRun_append before (.remove clientId :: later)
    rw [hend] at hlist
    obtain rfl := Except.ok.inj (hfinal.symm.trans hlist)
    exact hout

/-- In a run in which every call writes to the file that it has read, the file and the answers are
those of the answered calls in the order of their answers, and a removed client stays out. -/
theorem trusted_updates_serial (C : TrustedKeyCodec U K) (start : Option String)
    (events : List (TrustedFileEvent U)) (s : TrustedFile U)
    (hrun : Run (TrustedFile.step C) TrustedFile.Current ⟨start, [], []⟩ events s) :
    (s.file = trustedRun C start (s.answered.map Prod.fst) ∧
        s.answered = trustedAnswers C start (s.answered.map Prod.fst)) ∧
      (s.pending = [] → (s.answered.map Prod.fst).Perm (callsOf events)) ∧
      ∀ before clientId later, s.answered = before ++ (.remove clientId, .ok true) :: later →
        (∀ client answer, (.upsert client, answer) ∈ later → client.clientId ≠ clientId) →
        ∀ clients, listTrustedClients C s.file = .ok clients →
          ∀ client ∈ clients, client.clientId ≠ clientId := by
  have hstart : Serial C start ⟨start, [], []⟩ := ⟨rfl, rfl⟩
  have hserial : Serial C start s := hrun.invariant (fun _ _ _ h => h.step) hstart
  refine ⟨⟨hserial.file, hserial.answers⟩, fun hpending => ?_, ?_⟩
  · have hcalls := calls_run hrun
    simpa [TrustedFile.calls, hpending] using hcalls
  · intro before clientId later hanswered hlater clients hlist
    have hsplit : s.answered.map Prod.fst =
        before.map Prod.fst ++ .remove clientId :: later.map Prod.fst := by
      rw [hanswered, List.map_append, List.map_cons]
    have hanswers := hserial.answers
    rw [hsplit, trustedAnswers_append, hanswered] at hanswers
    have hlength : before.length = (trustedAnswers C start (before.map Prod.fst)).length := by
      have hcalls : (trustedAnswers C start (before.map Prod.fst)).map Prod.fst =
          before.map Prod.fst := trustedAnswers_calls _
      simpa using (congrArg List.length hcalls).symm
    obtain ⟨_, htail⟩ := List.append_inj hanswers hlength
    have hremoved := (Prod.mk.inj (List.cons.inj htail).1).2
    rw [hserial.file, hsplit] at hlist
    refine removed_stays_out hremoved.symm (fun client hclient => ?_) hlist
    obtain ⟨⟨call, answer⟩, hmem, rfl⟩ := List.mem_map.mp hclient
    exact hlater client answer hmem

theorem read_step {call : TrustedCall U} (h : call.writes (trustedStep C s.file call).1 = true) :
    s.step C (.read call) = some { s with pending := s.pending ++ [(call, s.file)] } := if_pos h

/-- Two calls that both read the file before either of them writes it. -/
theorem overlap_run {a b : TrustedCall U} (ha : a.writes (trustedStep C file a).1 = true)
    (hb : b.writes (trustedStep C file b).1 = true) :
    Run (TrustedFile.step C) (fun _ _ => True) ⟨file, [], []⟩
      [.read a, .read b, .write 0, .write 0]
      ⟨(trustedStep C file b).2, [],
        [(a, (trustedStep C file a).1), (b, (trustedStep C file b).1)]⟩ :=
  .cons trivial (read_step ha) (.cons trivial (read_step hb)
    (.cons trivial rfl (.cons trivial rfl (.nil _))))

omit [DecidableEq U] in
theorem current_singleton {answered : List (TrustedCall U × Except TrustedKeyAuthError Bool)}
    (call : TrustedCall U) :
    TrustedFile.Current ⟨file, [(call, file)], answered⟩ (.write 0) := by
  intro entry hentry
  obtain rfl := Option.some.inj hentry
  rfl

/-- Two calls, the second of which reads what the first has written. -/
theorem serial_run {a b : TrustedCall U} (ha : a.writes (trustedStep C file a).1 = true)
    (hb : b.writes (trustedStep C (trustedStep C file a).2 b).1 = true) :
    Run (TrustedFile.step C) TrustedFile.Current ⟨file, [], []⟩
      [.read a, .write 0, .read b, .write 0]
      ⟨(trustedStep C (trustedStep C file a).2 b).2, [],
        [(a, (trustedStep C file a).1), (b, (trustedStep C (trustedStep C file a).2 b).1)]⟩ :=
  .cons trivial (read_step ha) (.cons (current_singleton a) rfl
    (.cons trivial (read_step hb) (.cons (current_singleton b) rfl (.nil _))))

section Overlap
variable {first second : TrustedRelayClient U}

theorem upsert_writes {clients : List (TrustedRelayClient U)}
    (hread : readTrustedClientsFile C file = .ok clients)
    (hvalid : validateClient C second = .ok ()) :
    (TrustedCall.upsert second).writes (trustedStep C file (.upsert second)).1 = true := by
  obtain ⟨⟨answer, hanswer⟩, _⟩ := upsert_valid hvalid hread
  have hstep : (trustedStep C file (.upsert second)).1 = .ok answer := hanswer
  rw [hstep]
  rfl

theorem remove_first (hread : readTrustedClientsFile C file = .ok [first]) :
    (trustedStep C file (.remove first.clientId)).1 = .ok true ∧
      readTrustedClientsFile C (trustedStep C file (.remove first.clientId)).2 = .ok [] := by
  obtain ⟨hkept, hfound⟩ := remove_spec hread first.clientId
  have hnone : [first].filter (fun client => client.clientId != first.clientId) = [] := by simp
  rw [hnone] at hkept
  exact ⟨hfound.mpr ⟨first, List.mem_cons_self, rfl⟩, hkept⟩

theorem remove_writes (hread : readTrustedClientsFile C file = .ok [first]) :
    (TrustedCall.remove first.clientId).writes
      (trustedStep C file (.remove first.clientId)).1 = true := by
  rw [(remove_first hread).1]
  rfl

/-- A client is removed while another one is registered: it stays in the file. -/
theorem lost_removal (hread : readTrustedClientsFile C file = .ok [first])
    (hvalid : validateClient C second = .ok ()) (hother : sameClient second first = false) :
    ∃ s, Run (TrustedFile.step C) (fun _ _ => True) ⟨file, [], []⟩
        [.read (.remove first.clientId), .read (.upsert second), .write 0, .write 0] s ∧
      s.pending = [] ∧ (.remove first.clientId, .ok true) ∈ s.answered ∧
      listTrustedClients C s.file = .ok [first, second] ∧
      ∀ order : List (TrustedCall U), order.Perm [.remove first.clientId, .upsert second] →
        listTrustedClients C (trustedRun C file order) = .ok [second] := by
  obtain ⟨hremoved, hempty⟩ := remove_first hread
  have hboth := (upsert_valid hvalid hread).2
  have hregister : register [first] second = [first, second] := by simp [register, hother]
  rw [hregister] at hboth
  refine ⟨_, overlap_run (remove_writes hread) (upsert_writes hread hvalid), rfl, ?_, hboth, ?_⟩
  · rw [hremoved]
    exact List.mem_cons_self
  · intro order horder
    obtain rfl | rfl := List.perm_pair.mp horder
    · exact (upsert_valid hvalid hempty).2
    · have hkept := (remove_spec hboth first.clientId).1
      have hids : second.clientId ≠ first.clientId := fun h => by simp [sameClient, h] at hother
      have hone : [first, second].filter (fun client => client.clientId != first.clientId) =
          [second] := by simp [hids]
      rw [hone] at hkept
      exact hkept

/-- The calls one after the other. -/
theorem kept_removal (hread : readTrustedClientsFile C file = .ok [first])
    (hvalid : validateClient C second = .ok ()) :
    Run (TrustedFile.step C) TrustedFile.Current ⟨file, [], []⟩
        [.read (.remove first.clientId), .write 0, .read (.upsert second), .write 0]
        ⟨(trustedStep C (trustedStep C file (.remove first.clientId)).2 (.upsert second)).2, [],
          [(.remove first.clientId, .ok true),
            (.upsert second,
              (trustedStep C (trustedStep C file (.remove first.clientId)).2 (.upsert second)).1)]⟩ := by
  obtain ⟨hremoved, hempty⟩ := remove_first hread
  rw [← hremoved]
  exact serial_run (remove_writes hread) (upsert_writes hempty hvalid)

end Overlap

section Runs

/-- The file with one client. -/
def oneLaptop : Option String := writeTrustedClientsFile sampleKeyCodec [laptop 1 zeroKey]

theorem oneLaptop_read :
    readTrustedClientsFile sampleKeyCodec oneLaptop = .ok [laptop 1 zeroKey] :=
  read_write fun client hclient =>
    laptop_valid client (by rw [List.mem_singleton.mp hclient]; exact List.mem_cons_self)

theorem second_valid : validateClient sampleKeyCodec (laptop 2 oneKey) = .ok () :=
  laptop_valid _ (by simp)

/-- The removal returns true, and the client is in the file again. -/
theorem trusted_updates_lost : ∃ s,
    Run (TrustedFile.step sampleKeyCodec) (fun _ _ => True) ⟨oneLaptop, [], []⟩
        [.read (.remove 1), .read (.upsert (laptop 2 oneKey)), .write 0, .write 0] s ∧
      s.pending = [] ∧ (.remove 1, .ok true) ∈ s.answered ∧
      listTrustedClients sampleKeyCodec s.file = .ok [laptop 1 zeroKey, laptop 2 oneKey] ∧
      ∀ order : List (TrustedCall ℕ), order.Perm [.remove 1, .upsert (laptop 2 oneKey)] →
        listTrustedClients sampleKeyCodec (trustedRun sampleKeyCodec oneLaptop order) =
          .ok [laptop 2 oneKey] :=
  lost_removal oneLaptop_read second_valid (by decide)

/-- The same calls one after the other. -/
theorem trusted_updates_serial_laptop : ∃ s,
    Run (TrustedFile.step sampleKeyCodec) TrustedFile.Current ⟨oneLaptop, [], []⟩
        [.read (.remove 1), .write 0, .read (.upsert (laptop 2 oneKey)), .write 0] s ∧
      ∀ clients, listTrustedClients sampleKeyCodec s.file = .ok clients →
        ∀ client ∈ clients, client.clientId ≠ 1 := by
  have hrun := kept_removal oneLaptop_read second_valid
  obtain ⟨_, _, hout⟩ := trusted_updates_serial sampleKeyCodec oneLaptop _ _ hrun
  refine ⟨_, hrun, hout [] 1 _ rfl ?_⟩
  intro client answer hclient
  obtain ⟨hcall, _⟩ := Prod.mk.inj (List.mem_singleton.mp hclient)
  rw [TrustedCall.upsert.inj hcall]
  decide

end Runs

end VibeKanban.Relay
