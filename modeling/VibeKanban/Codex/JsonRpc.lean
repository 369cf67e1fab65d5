import Mathlib.Data.Nat.Notation
import Mathlib.Logic.Function.Basic
import Mathlib.Tactic.SplitIfs
import VibeKanban.Lib.Machine

/-! The JSON-RPC peer of the Codex executor: its requests, the reader loop that resolves them, and the
shutdown that drains what is still pending. -/
namespace VibeKanban.Codex
open Lib

inductive RequestId where
  | integer (n : Int64)
  | string (s : String)
  deriving DecidableEq

structure JSONRPCResponse (V : Type) where
  id : RequestId
  result : V

structure JSONRPCError (E : Type) where
  id : RequestId
  error : E

/-- A result is kept with the id of its response. -/
inductive PendingResponse (V E : Type) where
  | result (response : JSONRPCResponse V)
  | error (error : JSONRPCError E)
  | shutdown

variable {V E : Type}

/-- The response or error has the id, or is none. -/
def PendingResponse.Carries : PendingResponse V E → RequestId → Prop
  | .result response, id => response.id = id
  | .error rejection, id => rejection.id = id
  | .shutdown, _ => True

/-- What the awaited request gets. -/
inductive Outcome (V E : Type) where
  | response (response : PendingResponse V E)
  | dropped
  | cancelled
  | failed

/-- A request has its id, is being written, or awaits its response. `late` says that it registered
after the shutdown. -/
inductive Stage (V E : Type) where
  | issued
  | writing (late : Bool)
  | waiting
  | returned (outcome : Outcome V E)

/-- A request and what its sender has been given. -/
structure Call (V E : Type) where
  id : RequestId
  stage : Stage V E
  channel : Option (PendingResponse V E)

/-- The reader waits for a line, resolves a response whose callback is over, has left its loop, or
has shut down. -/
inductive ReaderState (V E : Type) where
  | reading
  | resolving (id : RequestId) (response : PendingResponse V E)
  | leaving
  | ended

/-- Requests, notifications and lines that are no JSON-RPC messages are `other`. -/
inductive JSONRPCMessage (V E : Type) where
  | response (response : JSONRPCResponse V)
  | error (error : JSONRPCError E)
  | other

/-- `pending` has the calls whose senders are in the map. -/
structure JsonRpcPeer (V E : Type) where
  pending : RequestId → Option ℕ
  idCounter : Int64
  issued : ℕ
  calls : ℕ → Option (Call V E)
  reader : ReaderState V E

/-- `leaves` says that the callback fails or asks for the exit. -/
inductive PeerEvent (V E : Type) where
  | nextRequestId
  | register (call : ℕ)
  | written (call : ℕ)
  | writeFailed (call : ℕ)
  | cancel (call : ℕ)
  | receive (call : ℕ)
  | read (message : JSONRPCMessage V E) (leaves : Bool)
  | stop
  | resolve
  | shutdown

namespace JsonRpcPeer

def spawn : JsonRpcPeer V E := ⟨fun _ => none, 1, 0, fun _ => none, .reading⟩

variable (s : JsonRpcPeer V E)

def ended : Bool :=
  match s.reader with
  | .ended => true
  | _ => false

def setCall (h : ℕ) (call : Call V E) : JsonRpcPeer V E :=
  { s with calls := Function.update s.calls h (some call) }

def setStage (h : ℕ) (call : Call V E) (stage : Stage V E) : JsonRpcPeer V E :=
  s.setCall h { call with stage := stage }

/-- A new request gets the next id. -/
def issue : JsonRpcPeer V E := { s with
  idCounter := s.idCounter + 1
  issued := s.issued + 1
  calls := Function.update s.calls s.issued (some ⟨.integer s.idCounter, .issued, none⟩) }

/-- The sender of a request enters the map. -/
def enter (h : ℕ) (call : Call V E) : JsonRpcPeer V E := { s.setStage h call (.writing s.ended) with
  pending := Function.update s.pending call.id (some h) }

/-- The sender of the id, if there is one, leaves the map and sends. -/
def resolve (id : RequestId) (response : PendingResponse V E) : JsonRpcPeer V E :=
  match s.pending id with
  | none => s
  | some h => { s with
      pending := Function.update s.pending id none
      calls := Function.update s.calls h
        ((s.calls h).map fun call => { call with channel := some response }) }

/-- All senders leave the map and send. -/
def drain : JsonRpcPeer V E := { s with
  pending := fun _ => none
  calls := fun h => (s.calls h).map fun call =>
    if s.pending call.id = some h then { call with channel := some .shutdown } else call }

/-- What the reader does with a message whose callback is over. -/
def afterCallback (message : JSONRPCMessage V E) (leaves : Bool) : ReaderState V E :=
  if leaves then .leaving
  else
    match message with
    | .response response => .resolving response.id (.result response)
    | .error rejection => .resolving rejection.id (.error rejection)
    | .other => .reading

/-- One atomic step, when it can be taken. -/
def step : PeerEvent V E → Option (JsonRpcPeer V E)
  | .nextRequestId => some s.issue
  | .register h => do
    let call ← s.calls h
    match call.stage with
    | .issued => some (s.enter h call)
    | _ => none
  | .written h => do
    let call ← s.calls h
    match call.stage with
    | .writing _ => some (s.setStage h call .waiting)
    | _ => none
  | .writeFailed h => do
    let call ← s.calls h
    match call.stage with
    | .writing _ => some (s.setStage h call (.returned .failed))
    | _ => none
  | .cancel h => do
    let call ← s.calls h
    match call.stage with
    | .returned _ => none
    | _ => some (s.setStage h call (.returned .cancelled))
  | .receive h => do
    let call ← s.calls h
    match call.stage with
    | .waiting =>
      match call.channel with
      | some response => some (s.setStage h call (.returned (.response response)))
      | none =>
        if s.pending call.id = some h then none
        else some (s.setStage h call (.returned .dropped))
    | _ => none
  | .read message leaves =>
    match s.reader with
    | .reading => some { s with reader := afterCallback message leaves }
    | _ => none
  | .stop =>
    match s.reader with
    | .reading => some { s with reader := .leaving }
    | _ => none
  | .resolve =>
    match s.reader with
    | .resolving id response => some { s.resolve id response with reader := .reading }
    | _ => none
  | .shutdown =>
    match s.reader with
    | .leaving => some { s.drain with reader := .ended }
    | _ => none

/-- No request that registered after the shutdown is written. -/
def InTime : PeerEvent V E → Prop
  | .written h => ∀ call ∈ s.calls h, call.stage ≠ .writing true
  | _ => True

/-- A request that is not cancelled waits, and its sender is in the map. -/
def Orphaned (h : ℕ) : Prop :=
  ∃ call, s.calls h = some call ∧ call.stage = .waiting ∧ s.pending call.id = some h

end JsonRpcPeer

namespace JsonRpcPeer

/-- Senders in the map belong to registered requests that have been given nothing, and nobody is
given what is not his. -/
structure Sound (s : JsonRpcPeer V E) : Prop where
  pending : ∀ id h, s.pending id = some h → ∃ call, s.calls h = some call ∧ call.id = id ∧
    call.channel = none
  issued : ∀ h call, s.calls h = some call → call.stage = .issued →
    call.channel = none ∧ s.pending call.id ≠ some h
  carries : ∀ h call, s.calls h = some call → ∀ p, call.channel = some p → p.Carries call.id
  returned : ∀ h call p, s.calls h = some call → call.stage = .returned (.response p) →
    call.channel = some p
  fresh : ∀ h, s.issued ≤ h → s.calls h = none
  resolving : ∀ id p, s.reader = .resolving id p → p.Carries id

/-- A request has returned for good, and what its sender was given is never replaced. -/
def Later (s s' : JsonRpcPeer V E) : Prop :=
  ∀ h call, s.calls h = some call → ∃ call', s'.calls h = some call' ∧ call'.id = call.id ∧
    (∀ o, call.stage = .returned o → call'.stage = .returned o) ∧
    ∀ p, call.channel = some p → call'.channel = some p

/-- After the shutdown no sender in the map belongs to a request that registered before it or waits. -/
def Drained (s : JsonRpcPeer V E) : Prop :=
  s.ended = true → ∀ h call, s.calls h = some call → s.pending call.id = some h →
    call.stage ≠ .waiting ∧ call.stage ≠ .writing false

variable {s s' : JsonRpcPeer V E} {h : ℕ} {call : Call V E}

theorem Later.refl (s : JsonRpcPeer V E) : Later s s :=
  fun _ call hcall => ⟨call, hcall, rfl, fun _ ho => ho, fun _ hp => hp⟩

theorem Later.trans {s'' : JsonRpcPeer V E} (h : Later s s') (h' : Later s' s'') : Later s s'' := by
  intro i call hcall
  obtain ⟨call', hcall', hid, hstage, hchannel⟩ := h i call hcall
  obtain ⟨call'', hcall'', hid', hstage', hchannel'⟩ := h' i call' hcall'
  exact ⟨call'', hcall'', hid'.trans hid, fun o ho => hstage' o (hstage o ho),
    fun p hp => hchannel' p (hchannel p hp)⟩

theorem setStage_calls (i : ℕ) (stage : Stage V E) : (s.setStage h call stage).calls i =
    if i = h then some { call with stage := stage } else s.calls i := by
  simp only [setStage, setCall, Function.update_apply]

/-- A request that moves on keeps its id and what it was given. -/
theorem Sound.setStage (hs : s.Sound) (hcall : s.calls h = some call) {stage : Stage V E}
    (hissued : stage ≠ .issued)
    (hreturned : ∀ p, stage = .returned (.response p) → call.channel = some p) :
    (s.setStage h call stage).Sound where
  pending id i hi := by
    obtain ⟨call', hcall', hid, hchannel⟩ := hs.pending id i hi
    rw [setStage_calls]
    split_ifs with heq
    · subst heq
      obtain rfl := Option.some.inj (hcall.symm.trans hcall')
      exact ⟨_, rfl, hid, hchannel⟩
    · exact ⟨call', hcall', hid, hchannel⟩
  issued i call' hcall' hstage := by
    rw [setStage_calls] at hcall'
    split_ifs at hcall' with heq
    · obtain rfl := Option.some.inj hcall'
      exact absurd hstage hissued
    · exact hs.issued i call' hcall' hstage
  carries i call' hcall' p hp := by
    rw [setStage_calls] at hcall'
    split_ifs at hcall' with heq
    · obtain rfl := Option.some.inj hcall'
      exact hs.carries h call hcall p hp
    · exact hs.carries i call' hcall' p hp
  returned i call' p hcall' hstage := by
    rw [setStage_calls] at hcall'
    split_ifs at hcall' with heq
    · obtain rfl := Option.some.inj hcall'
      exact hreturned p hstage
    · exact hs.returned i call' p hcall' hstage
  fresh i hi := by
    rw [setStage_calls]
    split_ifs with heq
    · subst heq
      rw [hs.fresh i hi] at hcall
      cases hcall
    · exact hs.fresh i hi
  resolving := hs.resolving

theorem Later.setStage (hcall : s.calls h = some call) {stage : Stage V E}
    (hnot : ∀ o, call.stage ≠ .returned o) : Later s (s.setStage h call stage) := by
  intro i call' hcall'
  rw [setStage_calls]
  split_ifs with heq
  · subst heq
    obtain rfl := Option.some.inj (hcall.symm.trans hcall')
    exact ⟨_, rfl, rfl, fun o ho => absurd ho (hnot o), fun _ hp => hp⟩
  · exact ⟨call', hcall', rfl, fun _ ho => ho, fun _ hp => hp⟩

theorem enter_pending (id : RequestId) : (s.enter h call).pending id =
    if id = call.id then some h else s.pending id := Function.update_apply _ _ _ _

theorem issue_calls (i : ℕ) : s.issue.calls i =
    if i = s.issued then some ⟨.integer s.idCounter, .issued, none⟩ else s.calls i :=
  Function.update_apply _ _ _ _

theorem Sound.enter (hs : s.Sound) (hcall : s.calls h = some call) (hissued : call.stage = .issued) :
    (s.enter h call).Sound := by
  have hset : (s.setStage h call (.writing s.ended)).Sound :=
    hs.setStage hcall (by simp) (by simp)
  have hself : (s.enter h call).calls h = some { call with stage := .writing s.ended } := by
    rw [show (s.enter h call).calls h = (s.setStage h call (.writing s.ended)).calls h from rfl,
      setStage_calls, if_pos rfl]
  constructor
  case pending =>
    intro id i hi
    rw [enter_pending] at hi
    split_ifs at hi with hid
    · obtain rfl := Option.some.inj hi
      exact ⟨_, hself, hid.symm, (hs.issued h call hcall hissued).1⟩
    · exact hset.pending id i hi
  case issued =>
    intro i call' hcall' hstage
    obtain ⟨hchannel, hpending⟩ := hset.issued i call' hcall' hstage
    refine ⟨hchannel, fun hi => ?_⟩
    rw [enter_pending] at hi
    split_ifs at hi with hid
    · obtain rfl := Option.some.inj hi
      obtain rfl := Option.some.inj (hself.symm.trans hcall')
      cases hstage
    · exact hpending hi
  case carries => exact hset.carries
  case returned => exact hset.returned
  case fresh => exact hset.fresh
  case resolving => exact hset.resolving

theorem Sound.pending_ne_issued (hs : s.Sound) (id : RequestId) : s.pending id ≠ some s.issued := by
  intro hi
  obtain ⟨call, hcall, _⟩ := hs.pending id s.issued hi
  rw [hs.fresh s.issued (Nat.le_refl _)] at hcall
  cases hcall

theorem Sound.issue (hs : s.Sound) : s.issue.Sound := by
  constructor
  case pending =>
    intro id i hi
    obtain ⟨call, hcall, hrest⟩ := hs.pending id i hi
    refine ⟨call, ?_, hrest⟩
    rw [issue_calls, if_neg]
    · exact hcall
    · rintro rfl
      exact hs.pending_ne_issued id hi
  case issued =>
    intro i call hcall hstage
    rw [issue_calls] at hcall
    split_ifs at hcall with hne
    · subst hne
      obtain rfl := Option.some.inj hcall
      exact ⟨rfl, hs.pending_ne_issued _⟩
    · exact hs.issued i call hcall hstage
  case carries =>
    intro i call hcall p hp
    rw [issue_calls] at hcall
    split_ifs at hcall with hne
    · obtain rfl := Option.some.inj hcall
      cases hp
    · exact hs.carries i call hcall p hp
  case returned =>
    intro i call p hcall hstage
    rw [issue_calls] at hcall
    split_ifs at hcall with hne
    · obtain rfl := Option.some.inj hcall
      cases hstage
    · exact hs.returned i call p hcall hstage
  case fresh =>
    intro i hi
    have hlt : s.issued < i := hi
    rw [issue_calls, if_neg (by omega)]
    exact hs.fresh i (by omega)
  case resolving => exact hs.resolving

theorem Later.issue (hs : s.Sound) : Later s s.issue := by
  intro i call hcall
  refine ⟨call, ?_, rfl, fun _ ho => ho, fun _ hp => hp⟩
  rw [issue_calls, if_neg]
  · exact hcall
  · rintro rfl
    rw [hs.fresh s.issued (Nat.le_refl _)] at hcall
    cases hcall

/-- Some senders leave the map, each with what it sends. -/
structure Gives (s s' : JsonRpcPeer V E) (p : PendingResponse V E) : Prop where
  pending : ∀ id, s'.pending id = s.pending id ∨ s'.pending id = none ∧ p.Carries id
  calls : ∀ i, s'.calls i = (s.calls i).map fun call =>
    if s.pending call.id = some i ∧ s'.pending call.id = none then { call with channel := some p }
    else call
  issued : s'.issued = s.issued

theorem map_ite_false {α : Type} {c : α → Prop} [DecidablePred c] {f : α → α} (x : Option α)
    (hc : ∀ a, x = some a → ¬ c a) : x = x.map fun a => if c a then f a else a := by
  cases x with
  | none => rfl
  | some a => rw [Option.map_some, if_neg (hc a rfl)]

theorem resolve_gives {id : RequestId} {p : PendingResponse V E} (hs : s.Sound) (hp : p.Carries id) :
    Gives s (s.resolve id p) p := by
  cases hpending : s.pending id with
  | none =>
    have hsame : s.resolve id p = s := by simp only [resolve, hpending]
    rw [hsame]
    refine ⟨fun _ => .inl rfl, fun i => map_ite_false _ fun call _ hc => ?_, rfl⟩
    rw [hc.1] at hc
    cases hc.2
  | some h =>
    obtain ⟨call, hcall, rfl, _⟩ := hs.pending id h hpending
    have hsenders (id : RequestId) : (s.resolve call.id p).pending id =
        if id = call.id then none else s.pending id := by
      simp only [resolve, hpending, Function.update_apply]
    have hcalls (i : ℕ) : (s.resolve call.id p).calls i =
        if i = h then some { call with channel := some p } else s.calls i := by
      simp only [resolve, hpending, Function.update_apply, hcall, Option.map_some]
    constructor
    case pending =>
      intro id
      rw [hsenders]
      split_ifs with hid
      · exact .inr ⟨rfl, hid ▸ hp⟩
      · exact .inl rfl
    case calls =>
      intro i
      rw [hcalls]
      split_ifs with hi
      · subst hi
        rw [hcall, Option.map_some, if_pos ⟨hpending, by rw [hsenders, if_pos rfl]⟩]
      · refine map_ite_false _ fun other _ hc => ?_
        rw [hsenders] at hc
        split_ifs at hc with hid
        · rw [hid, hpending] at hc
          exact hi (Option.some.inj hc.1).symm
        · rw [hc.1] at hc
          cases hc.2
    case issued => simp only [resolve, hpending]

theorem drain_gives : Gives s s.drain .shutdown where
  pending _ := .inr ⟨rfl, trivial⟩
  calls i := by simp [drain]
  issued := rfl

/-- What a request becomes when senders leave the map. -/
theorem Gives.origin {p : PendingResponse V E} (hg : Gives s s' p) {i : ℕ} {call' : Call V E}
    (hcall' : s'.calls i = some call') : ∃ call, s.calls i = some call ∧
      (s.pending call.id = some i ∧ s'.pending call.id = none ∧ p.Carries call.id ∧
          call' = { call with channel := some p } ∨
        (s.pending call.id = some i → s'.pending call.id = some i) ∧ call' = call) := by
  rw [hg.calls] at hcall'
  obtain ⟨call, hcall, heq⟩ := Option.map_eq_some_iff.mp hcall'
  refine ⟨call, hcall, ?_⟩
  split_ifs at heq with hc
  · obtain hsame | ⟨_, hp⟩ := hg.pending call.id
    · rw [hsame, hc.1] at hc
      cases hc.2
    · exact .inl ⟨hc.1, hc.2, hp, heq.symm⟩
  · refine .inr ⟨fun hi => ?_, heq.symm⟩
    obtain hsame | ⟨hnone, _⟩ := hg.pending call.id
    · exact hsame.trans hi
    · exact absurd ⟨hi, hnone⟩ hc

theorem Gives.sender {p : PendingResponse V E} (hg : Gives s s' p) {id : RequestId} {i : ℕ}
    (hi : s'.pending id = some i) : s.pending id = some i := by
  obtain hsame | ⟨hnone, _⟩ := hg.pending id
  · exact hsame.symm.trans hi
  · rw [hnone] at hi
    cases hi

theorem Sound.gives {p : PendingResponse V E} (hs : s.Sound) (hg : Gives s s' p)
    (hreader : ∀ id p, s'.reader = .resolving id p → p.Carries id) : s'.Sound := by
  have hunsent {i : ℕ} {call : Call V E} (hcall : s.calls i = some call)
      (hi : s.pending call.id = some i) : call.channel = none := by
    obtain ⟨call', hcall', _, hchannel⟩ := hs.pending call.id i hi
    obtain rfl := Option.some.inj (hcall.symm.trans hcall')
    exact hchannel
  constructor
  case pending =>
    intro id i hi
    obtain ⟨call, hcall, rfl, hchannel⟩ := hs.pending id i (hg.sender hi)
    refine ⟨call, ?_, rfl, hchannel⟩
    rw [hg.calls, hcall, Option.map_some, if_neg]
    rintro ⟨_, hnone⟩
    rw [hi] at hnone
    cases hnone
  case issued =>
    intro i call' hcall' hstage
    obtain ⟨call, hcall, ⟨hi, _, _, rfl⟩ | ⟨_, rfl⟩⟩ := hg.origin hcall'
    · exact absurd hi (hs.issued i call hcall hstage).2
    · obtain ⟨hchannel, hpending⟩ := hs.issued i call' hcall hstage
      exact ⟨hchannel, fun hi => hpending (hg.sender hi)⟩
  case carries =>
    intro i call' hcall' q hq
    obtain ⟨call, hcall, ⟨_, _, hp, rfl⟩ | ⟨_, rfl⟩⟩ := hg.origin hcall'
    · obtain rfl := Option.some.inj hq
      exact hp
    · exact hs.carries i call' hcall q hq
  case returned =>
    intro i call' q hcall' hstage
    obtain ⟨call, hcall, ⟨hi, _, _, rfl⟩ | ⟨_, rfl⟩⟩ := hg.origin hcall'
    · have hsent := hs.returned i call q hcall hstage
      rw [hunsent hcall hi] at hsent
      cases hsent
    · exact hs.returned i call' q hcall hstage
  case fresh =>
    intro i hi
    rw [hg.calls, hs.fresh i (hg.issued ▸ hi)]
    rfl
  case resolving => exact hreader

theorem Later.gives {p : PendingResponse V E} (hs : s.Sound) (hg : Gives s s' p) : Later s s' := by
  intro i call hcall
  have hcall' := hg.calls i
  rw [hcall, Option.map_some] at hcall'
  split_ifs at hcall' with hc
  · refine ⟨_, hcall', rfl, fun _ ho => ho, fun q hq => ?_⟩
    obtain ⟨call', hcall'', _, hchannel⟩ := hs.pending call.id i hc.1
    obtain rfl := Option.some.inj (hcall.symm.trans hcall'')
    rw [hchannel] at hq
    cases hq
  · exact ⟨call, hcall', rfl, fun _ ho => ho, fun _ hq => hq⟩

theorem Sound.setReader (hs : s.Sound) {reader : ReaderState V E}
    (hreader : ∀ id p, reader = .resolving id p → p.Carries id) :
    Sound { s with reader := reader } where
  pending := hs.pending
  issued := hs.issued
  carries := hs.carries
  returned := hs.returned
  fresh := hs.fresh
  resolving := hreader

theorem afterCallback_carries {message : JSONRPCMessage V E} {leaves : Bool} {id : RequestId}
    {p : PendingResponse V E} (h : afterCallback message leaves = .resolving id p) : p.Carries id := by
  unfold afterCallback at h
  split_ifs at h
  split at h
  · obtain ⟨rfl, rfl⟩ := ReaderState.resolving.inj h
    rfl
  · obtain ⟨rfl, rfl⟩ := ReaderState.resolving.inj h
    rfl
  · cases h

/-- What a step does to a request that moves on. -/
theorem step_call {event : PeerEvent V E} {f : Call V E → Option (JsonRpcPeer V E)}
    (hstep : s.step event = s.calls h >>= f) (hs' : s.step event = some s') :
    ∃ call, s.calls h = some call ∧ f call = some s' :=
  Option.bind_eq_some_iff.mp (hstep.symm.trans hs')

theorem step_spec {event : PeerEvent V E} (hs : s.Sound) (hstep : s.step event = some s') :
    s'.Sound ∧ Later s s' := by
  cases event with
  | nextRequestId =>
    obtain rfl := Option.some.inj hstep
    exact ⟨hs.issue, .issue hs⟩
  | register h =>
    obtain ⟨call, hcall, hrest⟩ := step_call rfl hstep
    cases hstage : call.stage with
    | issued =>
      rw [hstage] at hrest
      obtain rfl := Option.some.inj hrest
      exact ⟨hs.enter hcall hstage, Later.setStage hcall (by simp [hstage])⟩
    | _ => simp [hstage] at hrest
  | written h =>
    obtain ⟨call, hcall, hrest⟩ := step_call rfl hstep
    cases hstage : call.stage with
    | writing late =>
      rw [hstage] at hrest
      obtain rfl := Option.some.inj hrest
      exact ⟨hs.setStage hcall (by simp) (by simp), .setStage hcall (by simp [hstage])⟩
    | _ => simp [hstage] at hrest
  | writeFailed h =>
    obtain ⟨call, hcall, hrest⟩ := step_call rfl hstep
    cases hstage : call.stage with
    | writing late =>
      rw [hstage] at hrest
      obtain rfl := Option.some.inj hrest
      exact ⟨hs.setStage hcall (by simp) (by simp), .setStage hcall (by simp [hstage])⟩
    | _ => simp [hstage] at hrest
  | cancel h =>
    obtain ⟨call, hcall, hrest⟩ := step_call rfl hstep
    have hmoves (hnot : ∀ o, call.stage ≠ .returned o) (stage : Stage V E)
        (hstage : stage = .returned .cancelled) :
        (s.setStage h call stage).Sound ∧ Later s (s.setStage h call stage) := by
      subst hstage
      exact ⟨hs.setStage hcall (by simp) (by simp), .setStage hcall hnot⟩
    cases hstage : call.stage with
    | returned o => simp [hstage] at hrest
    | _ =>
      rw [hstage] at hrest
      obtain rfl := Option.some.inj hrest
      exact hmoves (by simp [hstage]) _ rfl
  | receive h =>
    obtain ⟨call, hcall, hrest⟩ := step_call rfl hstep
    cases hstage : call.stage with
    | waiting =>
      rw [hstage] at hrest
      cases hchannel : call.channel with
      | some p =>
        rw [hchannel] at hrest
        obtain rfl := Option.some.inj hrest
        exact ⟨hs.setStage hcall (by simp) (by simp [hchannel]), .setStage hcall (by simp [hstage])⟩
      | none =>
        simp only [hchannel] at hrest
        split_ifs at hrest
        obtain rfl := Option.some.inj hrest
        exact ⟨hs.setStage hcall (by simp) (by simp), .setStage hcall (by simp [hstage])⟩
    | _ => simp [hstage] at hrest
  | read message leaves =>
    simp only [step] at hstep
    split at hstep
    · obtain rfl := Option.some.inj hstep
      exact ⟨hs.setReader fun _ _ => afterCallback_carries, .refl s⟩
    · cases hstep
  | stop =>
    simp only [step] at hstep
    split at hstep
    · obtain rfl := Option.some.inj hstep
      exact ⟨hs.setReader (by simp), .refl s⟩
    · cases hstep
  | resolve =>
    simp only [step] at hstep
    split at hstep
    · rename_i id p hreader
      obtain rfl := Option.some.inj hstep
      have hg := resolve_gives hs (hs.resolving id p hreader)
      have hg' : Gives s { s.resolve id p with reader := .reading } p := ⟨hg.pending, hg.calls, hg.issued⟩
      exact ⟨hs.gives hg' (by simp), .gives hs hg'⟩
    · cases hstep
  | shutdown =>
    simp only [step] at hstep
    split at hstep
    · obtain rfl := Option.some.inj hstep
      have hg : Gives s { s.drain with reader := .ended } .shutdown :=
        ⟨drain_gives.pending, drain_gives.calls, drain_gives.issued⟩
      exact ⟨hs.gives hg (by simp), .gives hs hg⟩
    · cases hstep

theorem Drained.setStage (hd : s.Drained) {stage : Stage V E}
    (hstage : s.ended = true → s.pending call.id = some h →
      stage ≠ .waiting ∧ stage ≠ .writing false) : (s.setStage h call stage).Drained := by
  intro hended i call' hcall' hi
  rw [setStage_calls] at hcall'
  split_ifs at hcall' with heq
  · obtain rfl := Option.some.inj hcall'
    subst heq
    exact hstage hended hi
  · exact hd hended i call' hcall' hi

theorem Drained.enter (hd : s.Drained) : (s.enter h call).Drained := by
  intro hended i call' hcall' hi
  have hlate : s.ended = true := hended
  rw [enter_pending] at hi
  have hcalls : (s.setStage h call (.writing s.ended)).calls i = some call' := hcall'
  rw [setStage_calls] at hcalls
  split_ifs at hcalls with heq
  · obtain rfl := Option.some.inj hcalls
    simp [hlate]
  · split_ifs at hi with hid
    · exact absurd (Option.some.inj hi).symm heq
    · exact hd hlate i call' hcalls hi

theorem not_drained_of_not_ended (hreader : s.ended = false) : s.Drained := by
  intro hended
  rw [hreader] at hended
  cases hended

theorem afterCallback_not_ended (message : JSONRPCMessage V E) (leaves : Bool) :
    JsonRpcPeer.ended { s with reader := afterCallback message leaves } = false := by
  cases leaves with
  | true => rfl
  | false => cases message <;> rfl

theorem Drained.step (hs : s.Sound) (hd : s.Drained) {event : PeerEvent V E}
    (hok : s.InTime event) (hstep : s.step event = some s') : s'.Drained := by
  cases event with
  | nextRequestId =>
    obtain rfl := Option.some.inj hstep
    intro hended i call hcall hi
    rw [issue_calls] at hcall
    split_ifs at hcall with heq
    · subst heq
      exact absurd hi (hs.pending_ne_issued _)
    · exact hd hended i call hcall hi
  | register h =>
    obtain ⟨call, hcall, hrest⟩ := step_call rfl hstep
    cases hstage : call.stage with
    | issued =>
      rw [hstage] at hrest
      obtain rfl := Option.some.inj hrest
      exact hd.enter
    | _ => simp [hstage] at hrest
  | written h =>
    obtain ⟨call, hcall, hrest⟩ := step_call rfl hstep
    cases hstage : call.stage with
    | writing late =>
      rw [hstage] at hrest
      obtain rfl := Option.some.inj hrest
      refine hd.setStage fun hended hi => ?_
      have hearly := (hd hended h call hcall hi).2
      have htime := hok call hcall
      rw [hstage] at hearly htime
      cases late with
      | false => exact absurd rfl hearly
      | true => exact absurd rfl htime
    | _ => simp [hstage] at hrest
  | writeFailed h =>
    obtain ⟨call, hcall, hrest⟩ := step_call rfl hstep
    cases hstage : call.stage with
    | writing late =>
      rw [hstage] at hrest
      obtain rfl := Option.some.inj hrest
      exact hd.setStage fun _ _ => by simp
    | _ => simp [hstage] at hrest
  | cancel h =>
    obtain ⟨call, hcall, hrest⟩ := step_call rfl hstep
    cases hstage : call.stage with
    | returned o => simp [hstage] at hrest
    | _ =>
      rw [hstage] at hrest
      obtain rfl := Option.some.inj hrest
      exact hd.setStage fun _ _ => by simp
  | receive h =>
    obtain ⟨call, hcall, hrest⟩ := step_call rfl hstep
    cases hstage : call.stage with
    | waiting =>
      rw [hstage] at hrest
      cases hchannel : call.channel with
      | some p =>
        rw [hchannel] at hrest
        obtain rfl := Option.some.inj hrest
        exact hd.setStage fun _ _ => by simp
      | none =>
        simp only [hchannel] at hrest
        split_ifs at hrest
        obtain rfl := Option.some.inj hrest
        exact hd.setStage fun _ _ => by simp
    | _ => simp [hstage] at hrest
  | read message leaves =>
    simp only [JsonRpcPeer.step] at hstep
    split at hstep
    · obtain rfl := Option.some.inj hstep
      exact not_drained_of_not_ended (afterCallback_not_ended message leaves)
    · cases hstep
  | stop =>
    simp only [JsonRpcPeer.step] at hstep
    split at hstep
    · obtain rfl := Option.some.inj hstep
      exact not_drained_of_not_ended rfl
    · cases hstep
  | resolve =>
    simp only [JsonRpcPeer.step] at hstep
    split at hstep
    · obtain rfl := Option.some.inj hstep
      exact not_drained_of_not_ended rfl
    · cases hstep
  | shutdown =>
    simp only [JsonRpcPeer.step] at hstep
    split at hstep
    · obtain rfl := Option.some.inj hstep
      intro _ i call _ hi
      cases hi
    · cases hstep

theorem sound_spawn : (spawn : JsonRpcPeer V E).Sound where
  pending _ _ hi := by cases hi
  issued _ _ hcall := by cases hcall
  carries _ _ hcall := by cases hcall
  returned _ _ _ hcall := by cases hcall
  fresh _ _ := rfl
  resolving _ _ hreader := by cases hreader

theorem sound_run {ok : JsonRpcPeer V E → PeerEvent V E → Prop} {events : List (PeerEvent V E)}
    (hrun : Run step ok s events s') (hs : s.Sound) : s'.Sound ∧ Later s s' := by
  induction hrun with
  | nil s => exact ⟨hs, .refl s⟩
  | cons _ hstep _ ih =>
    obtain ⟨hmid, hlater⟩ := step_spec hs hstep
    obtain ⟨hend, hrest⟩ := ih hmid
    exact ⟨hend, hlater.trans hrest⟩

end JsonRpcPeer

/-- In every run a request receives its own response or error or the shutdown, and nothing else
afterwards. When no request that registered after the shutdown is written, none is orphaned once the
reader has ended. -/
theorem requests_not_orphaned (V E : Type) :
    (∀ events (s : JsonRpcPeer V E), Run JsonRpcPeer.step (fun _ _ => True) .spawn events s →
        ∀ h call, s.calls h = some call →
          (∀ p, call.stage = .returned (.response p) → p.Carries call.id) ∧
          ∀ later s', Run JsonRpcPeer.step (fun _ _ => True) s later s' →
            ∃ call', s'.calls h = some call' ∧ call'.id = call.id ∧
              (∀ p, call.channel = some p → call'.channel = some p) ∧
              ∀ o, call.stage = .returned o → call'.stage = .returned o) ∧
      ∀ events (s : JsonRpcPeer V E), Run JsonRpcPeer.step JsonRpcPeer.InTime .spawn events s →
        s.ended = true → ∀ h, ¬ s.Orphaned h := by
  constructor
  · intro events s hrun h call hcall
    obtain ⟨hs, _⟩ := JsonRpcPeer.sound_run hrun JsonRpcPeer.sound_spawn
    refine ⟨fun p hstage => hs.carries h call hcall p (hs.returned h call p hcall hstage), ?_⟩
    intro later s' hlater
    obtain ⟨call', hcall', hid, hstage, hchannel⟩ := (JsonRpcPeer.sound_run hlater hs).2 h call hcall
    exact ⟨call', hcall', hid, hchannel, hstage⟩
  · intro events s hrun hended h
    rintro ⟨call, hcall, hstage, hi⟩
    have hboth : s.Sound ∧ s.Drained := by
      refine hrun.invariant (I := fun s => s.Sound ∧ s.Drained) ?_
        ⟨JsonRpcPeer.sound_spawn, JsonRpcPeer.not_drained_of_not_ended rfl⟩
      intro t event t' ht hok hstep
      exact ⟨(JsonRpcPeer.step_spec ht.1 hstep).1, ht.2.step ht.1 hok hstep⟩
    exact (hboth.2 hended h call hcall hi).1 hstage

section Runs

/-- A request registers after the shutdown and is written. -/
theorem request_orphaned : ∃ s : JsonRpcPeer Unit Unit,
    Run JsonRpcPeer.step (fun _ _ => True) .spawn
      [.nextRequestId, .stop, .shutdown, .register 0, .written 0] s ∧ s.ended = true ∧
      s.Orphaned 0 :=
  ⟨_, .cons trivial rfl (.cons trivial rfl (.cons trivial rfl (.cons trivial rfl
    (.cons trivial rfl (.nil _))))), rfl, _, rfl, rfl, rfl⟩

/-- One request gets its response, and another one, written around the shutdown, the shutdown. -/
theorem requests_not_orphaned_two : ∃ s : JsonRpcPeer Unit Unit,
    Run JsonRpcPeer.step JsonRpcPeer.InTime .spawn
      [.nextRequestId, .register 0, .written 0, .read (.response ⟨.integer 1, ()⟩) false, .resolve,
        .receive 0, .nextRequestId, .register 1, .stop, .shutdown, .written 1] s ∧
      s.ended = true ∧ ∀ h, ¬ s.Orphaned h := by
  have hearly (call : Call Unit Unit) (x : Option (Call Unit Unit))
      (hx : x = some ⟨call.id, .writing false, call.channel⟩) :
      ∀ call ∈ x, call.stage ≠ .writing true := by
    rintro call' hcall'
    obtain rfl := Option.some.inj (hx.symm.trans hcall')
    simp
  have hrun : Run JsonRpcPeer.step JsonRpcPeer.InTime (.spawn : JsonRpcPeer Unit Unit)
      [.nextRequestId, .register 0, .written 0, .read (.response ⟨.integer 1, ()⟩) false, .resolve,
        .receive 0, .nextRequestId, .register 1, .stop, .shutdown, .written 1] _ :=
    .cons trivial rfl (.cons trivial rfl (.cons (hearly ⟨.integer 1, .issued, none⟩ _ rfl) rfl
      (.cons trivial rfl (.cons trivial rfl (.cons trivial rfl (.cons trivial rfl
        (.cons trivial rfl (.cons trivial rfl (.cons trivial rfl
          (.cons (hearly ⟨.integer 2, .issued, some .shutdown⟩ _ rfl) rfl (.nil _)))))))))))
  exact ⟨_, hrun, rfl, (requests_not_orphaned Unit Unit).2 _ _ hrun rfl⟩

end Runs

end VibeKanban.Codex
