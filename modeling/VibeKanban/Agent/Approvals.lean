import Mathlib.Data.Nat.Notation
import Mathlib.Logic.Function.Basic
import Mathlib.Tactic.SplitIfs
import VibeKanban.Lib.Machine

/-! Approvals: a request waits for its response, its cancellation or its timeout, and the steps of the
calls and of the watchers interleave. -/
namespace VibeKanban.Approvals
open Lib

inductive ApprovalOutcome (A : Type) where
  | approved
  | denied (reason : Option String)
  | answered (answers : A)
  | timedOut
  deriving DecidableEq, Repr

variable {I A : Type}

/-- Whether the outcome is one for a tool of this kind. -/
def validateApprovalResponse (outcome : ApprovalOutcome A) (isQuestion : Bool) : Bool :=
  match outcome with
  | .approved => !isQuestion
  | .denied _ => !isQuestion
  | .answered _ => isQuestion
  | .timedOut => true

/-- Where the sender of the outcome is: in the pending map, with the call that has removed it from
there, used, or gone. -/
inductive Sender (A : Type) where
  | pending
  | responding (status : ApprovalOutcome A)
  | stored (status : ApprovalOutcome A)
  | cancelling
  | cancelled
  | timingOut
  | sent (outcome : ApprovalOutcome A)
  | dropped

inductive Watcher (A : Type) where
  | waiting
  | resolved (outcome : ApprovalOutcome A)
  | stored (outcome : ApprovalOutcome A)
  | sending
  | finished

/-- `completed` is the entry of the completed map, `answer` what the successful call has returned. -/
structure Approval (A : Type) where
  isQuestion : Bool
  sender : Sender A
  watcher : Watcher A
  completed : Option (ApprovalOutcome A)
  answer : Option (ApprovalOutcome A)

/-- The atomic steps of `respond`, `cancel` and the watcher on one approval. -/
inductive ApprovalEvent (A : Type) where
  | respond (status : ApprovalOutcome A)
  | reject
  | store
  | send
  | cancel
  | cancelStore
  | cancelDrop
  | wake
  | timeout
  | watcherStore
  | watcherRemove
  | watcherSend

def cancelledOutcome : ApprovalOutcome A := .denied (some "Cancelled")

namespace Approval

def create (isQuestion : Bool) : Approval A := ⟨isQuestion, .pending, .waiting, none, none⟩

def waiter (a : Approval A) : Option (ApprovalOutcome A) :=
  match a.sender with
  | .sent outcome => some outcome
  | .dropped => some .timedOut
  | _ => none

/-- One atomic step, when it can be taken. -/
def step (a : Approval A) : ApprovalEvent A → Option (Approval A)
  | .respond status =>
    match a.sender with
    | .pending => some { a with sender := .responding status }
    | _ => none
  | .reject =>
    match a.sender with
    | .responding status =>
      if validateApprovalResponse status a.isQuestion then none else some { a with sender := .pending }
    | _ => none
  | .store =>
    match a.sender with
    | .responding status =>
      if validateApprovalResponse status a.isQuestion then
        some { a with sender := .stored status, completed := some status }
      else none
    | _ => none
  | .send =>
    match a.sender with
    | .stored status => some { a with sender := .sent status, answer := some status }
    | _ => none
  | .cancel =>
    match a.sender with
    | .pending => some { a with sender := .cancelling }
    | _ => none
  | .cancelStore =>
    match a.sender with
    | .cancelling => some { a with sender := .cancelled, completed := some cancelledOutcome }
    | _ => none
  | .cancelDrop =>
    match a.sender with
    | .cancelled => some { a with sender := .dropped, answer := some cancelledOutcome }
    | _ => none
  | .wake =>
    match a.watcher, a.waiter with
    | .waiting, some outcome => some { a with watcher := .resolved outcome }
    | _, _ => none
  | .timeout =>
    match a.watcher, a.waiter with
    | .waiting, none => some { a with watcher := .resolved .timedOut }
    | _, _ => none
  | .watcherStore =>
    match a.watcher with
    | .resolved outcome => some { a with watcher := .stored outcome, completed := some outcome }
    | _ => none
  | .watcherRemove =>
    match a.watcher, a.sender with
    | .stored .timedOut, .pending => some { a with watcher := .sending, sender := .timingOut }
    | .stored _, _ => some { a with watcher := .finished }
    | _, _ => none
  | .watcherSend =>
    match a.watcher with
    | .sending => some { a with watcher := .finished, sender := .sent .timedOut }
    | _ => none

/-- The outcome of the valid response that has taken the approval. -/
def decided (a : Approval A) : Option (ApprovalOutcome A) :=
  match a.sender with
  | .responding status => if validateApprovalResponse status a.isQuestion then some status else none
  | .stored status => some status
  | .sent status => some status
  | _ => none

/-- Nothing is cancelled, a valid response and the timeout do not both take the approval, and the
watcher does not look for it while an invalid response holds it. -/
def Careful (a : Approval A) : ApprovalEvent A → Prop
  | .respond status => ∀ outcome, a.watcher = .stored outcome →
      validateApprovalResponse status a.isQuestion = true → status = outcome
  | .cancel => a.sender ≠ .pending
  | .watcherStore => ∀ outcome, a.watcher = .resolved outcome → ∀ status ∈ a.decided, status = outcome
  | .watcherRemove => ∀ status, a.sender = .responding status →
      validateApprovalResponse status a.isQuestion = true
  | _ => True

/-- The waiter, the completed map and the call that has returned have one outcome, and while the
approval is pending its watcher is not over. -/
structure Consistent (a : Approval A) : Prop where
  waiter : ∀ o ∈ a.waiter, a.completed = some o
  answer : ∀ o ∈ a.answer, a.completed = some o
  pending : a.sender = .pending → a.watcher ≠ .finished ∧ a.watcher ≠ .sending

def Keeps (a a' : Approval A) : Prop :=
  (∀ o, a.completed = some o → a'.completed = some o) ∧
    (∀ o, a.waiter = some o → a'.waiter = some o) ∧ ∀ o, a.answer = some o → a'.answer = some o

/-- The states of an approval that is treated carefully. -/
inductive Inv : Approval A → Prop where
  | untouched (isQuestion : Bool) {sender : Sender A} {watcher : Watcher A}
      (hsender : sender = .pending ∨ ∃ status, sender = .responding status)
      (hwatcher : watcher = .waiting ∨ watcher = .resolved .timedOut) :
      Inv ⟨isQuestion, sender, watcher, none, none⟩
  | timing (isQuestion : Bool) {sender : Sender A}
      (hsender : sender = .pending ∨ ∃ status, sender = .responding status ∧
        (validateApprovalResponse status isQuestion = true → status = .timedOut)) :
      Inv ⟨isQuestion, sender, .stored .timedOut, some .timedOut, none⟩
  | overtaken (isQuestion : Bool) :
      Inv ⟨isQuestion, .responding .timedOut, .finished, some .timedOut, none⟩
  | stored (isQuestion : Bool) (status : ApprovalOutcome A) {watcher : Watcher A}
      (hwatcher : watcher = .waiting ∨ watcher = .resolved .timedOut ∨
        status = .timedOut ∧ (watcher = .stored .timedOut ∨ watcher = .finished)) :
      Inv ⟨isQuestion, .stored status, watcher, some status, none⟩
  | timingOut (isQuestion : Bool) : Inv ⟨isQuestion, .timingOut, .sending, some .timedOut, none⟩
  | sent (isQuestion : Bool) (outcome : ApprovalOutcome A) {watcher : Watcher A}
      {answer : Option (ApprovalOutcome A)}
      (hwatcher : watcher = .waiting ∨ watcher = .resolved .timedOut ∨ watcher = .resolved outcome ∨
        watcher = .stored outcome ∨ watcher = .finished)
      (hanswer : answer = none ∨ answer = some outcome) :
      Inv ⟨isQuestion, .sent outcome, watcher, some outcome, answer⟩

variable {a a' : Approval A} {event : ApprovalEvent A}

theorem Inv.create (isQuestion : Bool) : Inv (.create isQuestion : Approval A) :=
  .untouched isQuestion (.inl rfl) (.inl rfl)

theorem Inv.consistent (h : a.Inv) : a.Consistent := by
  cases h with
  | untouched isQuestion hsender hwatcher =>
    obtain rfl | ⟨status, rfl⟩ := hsender
    · obtain rfl | rfl := hwatcher
      · exact ⟨by simp [Approval.waiter], by simp, by simp⟩
      · exact ⟨by simp [Approval.waiter], by simp, by simp⟩
    · exact ⟨by simp [Approval.waiter], by simp, by simp⟩
  | timing isQuestion hsender =>
    obtain rfl | ⟨status, rfl, _⟩ := hsender
    · exact ⟨by simp [Approval.waiter], by simp, by simp⟩
    · exact ⟨by simp [Approval.waiter], by simp, by simp⟩
  | overtaken isQuestion => exact ⟨by simp [Approval.waiter], by simp, by simp⟩
  | stored isQuestion status hwatcher => exact ⟨by simp [Approval.waiter], by simp, by simp⟩
  | timingOut isQuestion => exact ⟨by simp [Approval.waiter], by simp, by simp⟩
  | sent isQuestion outcome hwatcher hanswer =>
    refine ⟨by simp [Approval.waiter], ?_, by simp⟩
    obtain rfl | rfl := hanswer
    · simp
    · simp

theorem keeps_of_none {isQuestion : Bool} {sender : Sender A} {watcher : Watcher A}
    (h : (⟨isQuestion, sender, watcher, none, none⟩ : Approval A).waiter = none) :
    Keeps ⟨isQuestion, sender, watcher, none, none⟩ a' :=
  ⟨by simp, by simp [h], by simp⟩

theorem keeps_of_completed {isQuestion : Bool} {sender : Sender A} {watcher : Watcher A}
    {outcome : ApprovalOutcome A}
    (h : (⟨isQuestion, sender, watcher, some outcome, none⟩ : Approval A).waiter = none)
    (hcompleted : a'.completed = some outcome) :
    Keeps ⟨isQuestion, sender, watcher, some outcome, none⟩ a' :=
  ⟨by simp [hcompleted], by simp [h], by simp⟩

theorem step_untouched {isQuestion : Bool} {sender : Sender A} {watcher : Watcher A}
    (hsender : sender = .pending ∨ ∃ status, sender = .responding status)
    (hwatcher : watcher = .waiting ∨ watcher = .resolved .timedOut)
    (hok : Careful ⟨isQuestion, sender, watcher, none, none⟩ event)
    (hstep : step ⟨isQuestion, sender, watcher, none, none⟩ event = some a') : a'.Inv := by
  cases event with
  | respond status =>
    obtain rfl | ⟨_, rfl⟩ := hsender
    · obtain rfl := Option.some.inj hstep
      exact .untouched isQuestion (.inr ⟨status, rfl⟩) hwatcher
    · cases hstep
  | reject =>
    obtain rfl | ⟨status, rfl⟩ := hsender
    · cases hstep
    · simp only [step] at hstep
      split_ifs at hstep
      obtain rfl := Option.some.inj hstep
      exact .untouched isQuestion (.inl rfl) hwatcher
  | store =>
    obtain rfl | ⟨status, rfl⟩ := hsender
    · cases hstep
    · simp only [step] at hstep
      split_ifs at hstep
      obtain rfl := Option.some.inj hstep
      exact .stored isQuestion status (hwatcher.imp_right .inl)
  | cancel =>
    obtain rfl | ⟨_, rfl⟩ := hsender
    · exact absurd rfl hok
    · cases hstep
  | timeout =>
    obtain rfl | rfl := hwatcher
    · obtain rfl | ⟨status, rfl⟩ := hsender
      · obtain rfl := Option.some.inj hstep
        exact .untouched isQuestion (.inl rfl) (.inr rfl)
      · obtain rfl := Option.some.inj hstep
        exact .untouched isQuestion (.inr ⟨status, rfl⟩) (.inr rfl)
    · cases hstep
  | watcherStore =>
    obtain rfl | rfl := hwatcher
    · cases hstep
    · obtain rfl := Option.some.inj hstep
      refine .timing isQuestion (hsender.imp_right ?_)
      rintro ⟨status, rfl⟩
      refine ⟨status, rfl, fun hvalid => hok .timedOut rfl status ?_⟩
      simp [decided, hvalid]
  | _ =>
    obtain rfl | ⟨_, rfl⟩ := hsender <;> obtain rfl | rfl := hwatcher <;> cases hstep

theorem step_timing {isQuestion : Bool} {sender : Sender A}
    (hsender : sender = .pending ∨ ∃ status, sender = .responding status ∧
      (validateApprovalResponse status isQuestion = true → status = .timedOut))
    (hok : Careful ⟨isQuestion, sender, .stored .timedOut, some .timedOut, none⟩ event)
    (hstep : step ⟨isQuestion, sender, .stored .timedOut, some .timedOut, none⟩ event = some a') :
    a'.Inv ∧ a'.completed = some .timedOut := by
  cases event with
  | respond status =>
    obtain rfl | ⟨_, rfl, _⟩ := hsender
    · obtain rfl := Option.some.inj hstep
      exact ⟨.timing isQuestion (.inr ⟨status, rfl, hok .timedOut rfl⟩), rfl⟩
    · cases hstep
  | reject =>
    obtain rfl | ⟨status, rfl, _⟩ := hsender
    · cases hstep
    · simp only [step] at hstep
      split_ifs at hstep
      obtain rfl := Option.some.inj hstep
      exact ⟨.timing isQuestion (.inl rfl), rfl⟩
  | store =>
    obtain rfl | ⟨status, rfl, hvalid⟩ := hsender
    · cases hstep
    · simp only [step] at hstep
      split_ifs at hstep with hv
      obtain rfl := Option.some.inj hstep
      obtain rfl := hvalid hv
      exact ⟨.stored isQuestion .timedOut (.inr (.inr ⟨rfl, .inl rfl⟩)), rfl⟩
  | cancel =>
    obtain rfl | ⟨_, rfl, _⟩ := hsender
    · exact absurd rfl hok
    · cases hstep
  | watcherRemove =>
    obtain rfl | ⟨status, rfl, hvalid⟩ := hsender
    · obtain rfl := Option.some.inj hstep
      exact ⟨.timingOut isQuestion, rfl⟩
    · obtain rfl := Option.some.inj hstep
      obtain rfl := hvalid (hok status rfl)
      exact ⟨.overtaken isQuestion, rfl⟩
  | _ =>
    obtain rfl | ⟨_, rfl, _⟩ := hsender <;> cases hstep

theorem step_stored {isQuestion : Bool} {status : ApprovalOutcome A} {watcher : Watcher A}
    (hwatcher : watcher = .waiting ∨ watcher = .resolved .timedOut ∨
      status = .timedOut ∧ (watcher = .stored .timedOut ∨ watcher = .finished))
    (hok : Careful ⟨isQuestion, .stored status, watcher, some status, none⟩ event)
    (hstep : step ⟨isQuestion, .stored status, watcher, some status, none⟩ event = some a') :
    a'.Inv ∧ a'.completed = some status := by
  cases event with
  | send =>
    obtain rfl := Option.some.inj hstep
    refine ⟨.sent isQuestion status ?_ (.inr rfl), rfl⟩
    obtain rfl | rfl | ⟨rfl, rfl | rfl⟩ := hwatcher
    · exact .inl rfl
    · exact .inr (.inl rfl)
    · exact .inr (.inr (.inr (.inl rfl)))
    · exact .inr (.inr (.inr (.inr rfl)))
  | timeout =>
    obtain rfl | rfl | ⟨rfl, rfl | rfl⟩ := hwatcher
    · obtain rfl := Option.some.inj hstep
      exact ⟨.stored isQuestion status (.inr (.inl rfl)), rfl⟩
    all_goals cases hstep
  | watcherStore =>
    obtain rfl | rfl | ⟨rfl, rfl | rfl⟩ := hwatcher
    · cases hstep
    · obtain rfl := Option.some.inj hstep
      obtain rfl := hok .timedOut rfl status rfl
      exact ⟨.stored isQuestion .timedOut (.inr (.inr ⟨rfl, .inl rfl⟩)), rfl⟩
    all_goals cases hstep
  | watcherRemove =>
    obtain rfl | rfl | ⟨rfl, rfl | rfl⟩ := hwatcher
    · cases hstep
    · cases hstep
    · obtain rfl := Option.some.inj hstep
      exact ⟨.stored isQuestion .timedOut (.inr (.inr ⟨rfl, .inr rfl⟩)), rfl⟩
    · cases hstep
  | _ =>
    obtain rfl | rfl | ⟨rfl, rfl | rfl⟩ := hwatcher <;> cases hstep

theorem step_sent {isQuestion : Bool} {outcome : ApprovalOutcome A} {watcher : Watcher A}
    {answer : Option (ApprovalOutcome A)}
    (hwatcher : watcher = .waiting ∨ watcher = .resolved .timedOut ∨ watcher = .resolved outcome ∨
      watcher = .stored outcome ∨ watcher = .finished)
    (hanswer : answer = none ∨ answer = some outcome)
    (hok : Careful ⟨isQuestion, .sent outcome, watcher, some outcome, answer⟩ event)
    (hstep : step ⟨isQuestion, .sent outcome, watcher, some outcome, answer⟩ event = some a') :
    a'.Inv ∧ a'.completed = some outcome ∧ a'.sender = .sent outcome ∧ a'.answer = answer := by
  cases event with
  | wake =>
    obtain rfl | rfl | rfl | rfl | rfl := hwatcher
    · obtain rfl := Option.some.inj hstep
      exact ⟨.sent isQuestion outcome (.inr (.inr (.inl rfl))) hanswer, rfl, rfl, rfl⟩
    all_goals cases hstep
  | watcherStore =>
    obtain rfl | rfl | rfl | rfl | rfl := hwatcher
    · cases hstep
    · obtain rfl := Option.some.inj hstep
      obtain rfl := hok .timedOut rfl outcome rfl
      exact ⟨.sent isQuestion .timedOut (.inr (.inr (.inr (.inl rfl)))) hanswer, rfl, rfl, rfl⟩
    · obtain rfl := Option.some.inj hstep
      exact ⟨.sent isQuestion outcome (.inr (.inr (.inr (.inl rfl)))) hanswer, rfl, rfl, rfl⟩
    all_goals cases hstep
  | watcherRemove =>
    obtain rfl | rfl | rfl | rfl | rfl := hwatcher
    · cases hstep
    · cases hstep
    · cases hstep
    · have hfinished : step ⟨isQuestion, .sent outcome, .stored outcome, some outcome, answer⟩
          .watcherRemove = some ⟨isQuestion, .sent outcome, .finished, some outcome, answer⟩ := by
        cases outcome <;> rfl
      obtain rfl := Option.some.inj (hfinished.symm.trans hstep)
      exact ⟨.sent isQuestion outcome (.inr (.inr (.inr (.inr rfl)))) hanswer, rfl, rfl, rfl⟩
    · cases hstep
  | _ =>
    obtain rfl | rfl | rfl | rfl | rfl := hwatcher <;> cases hstep

/-- A careful step keeps the invariant and the outcomes that are there. -/
theorem Inv.step (h : a.Inv) (hok : a.Careful event) (hstep : a.step event = some a') :
    a'.Inv ∧ Keeps a a' := by
  cases h with
  | untouched isQuestion hsender hwatcher =>
    refine ⟨step_untouched hsender hwatcher hok hstep, keeps_of_none ?_⟩
    obtain rfl | ⟨_, rfl⟩ := hsender <;> rfl
  | timing isQuestion hsender =>
    obtain ⟨hinv, hcompleted⟩ := step_timing hsender hok hstep
    refine ⟨hinv, keeps_of_completed ?_ hcompleted⟩
    obtain rfl | ⟨_, rfl, _⟩ := hsender <;> rfl
  | overtaken isQuestion =>
    cases event with
    | reject => cases hstep
    | store =>
      obtain rfl := Option.some.inj hstep
      exact ⟨.stored isQuestion .timedOut (.inr (.inr ⟨rfl, .inr rfl⟩)), keeps_of_completed rfl rfl⟩
    | _ => cases hstep
  | stored isQuestion status hwatcher =>
    obtain ⟨hinv, hcompleted⟩ := step_stored hwatcher hok hstep
    exact ⟨hinv, keeps_of_completed rfl hcompleted⟩
  | timingOut isQuestion =>
    cases event with
    | watcherSend =>
      obtain rfl := Option.some.inj hstep
      exact ⟨.sent isQuestion .timedOut (.inr (.inr (.inr (.inr rfl)))) (.inl rfl),
        keeps_of_completed rfl rfl⟩
    | _ => cases hstep
  | sent isQuestion outcome hwatcher hanswer =>
    obtain ⟨hinv, hcompleted, hsender, hkept⟩ := step_sent hwatcher hanswer hok hstep
    refine ⟨hinv, fun o ho => hcompleted.trans ho, fun o ho => ?_, fun o ho => hkept.trans ho⟩
    rw [waiter, hsender]
    exact ho

theorem Keeps.refl (a : Approval A) : Keeps a a := ⟨fun _ h => h, fun _ h => h, fun _ h => h⟩

theorem Keeps.trans {a'' : Approval A} (h : Keeps a a') (h' : Keeps a' a'') : Keeps a a'' :=
  ⟨fun o ho => h'.1 o (h.1 o ho), fun o ho => h'.2.1 o (h.2.1 o ho),
    fun o ho => h'.2.2 o (h.2.2 o ho)⟩

/-- The steps of the watcher alone, up to the timeout. -/
def TimesOut (a : Approval A) : Prop :=
  ∃ events a', (∀ event ∈ events, event ∈ [.timeout, .watcherStore, .watcherRemove, .watcherSend]) ∧
    Run step (fun _ _ => True) a events a' ∧ a'.sender = .sent .timedOut ∧
    a'.completed = some .timedOut

theorem Inv.timesOut (h : a.Inv) (hpending : a.sender = .pending) : a.TimesOut := by
  cases h with
  | untouched isQuestion hsender hwatcher =>
    cases hpending
    obtain rfl | rfl := hwatcher
    · exact ⟨[.timeout, .watcherStore, .watcherRemove, .watcherSend], _, by simp,
        .cons trivial rfl (.cons trivial rfl (.cons trivial rfl (.cons trivial rfl (.nil _)))),
        rfl, rfl⟩
    · exact ⟨[.watcherStore, .watcherRemove, .watcherSend], _, by simp,
        .cons trivial rfl (.cons trivial rfl (.cons trivial rfl (.nil _))), rfl, rfl⟩
  | timing isQuestion hsender =>
    cases hpending
    exact ⟨[.watcherRemove, .watcherSend], _, by simp,
      .cons trivial rfl (.cons trivial rfl (.nil _)), rfl, rfl⟩
  | _ => cases hpending

end Approval

/-- All approvals that were created, under their ids. -/
abbrev ApprovalMap (I A : Type) := I → Option (Approval A)

/-- The ids of requests are fresh. -/
inductive MapEvent (I A : Type) where
  | create (id : I) (isQuestion : Bool)
  | step (id : I) (event : ApprovalEvent A)

namespace ApprovalMap
variable [DecidableEq I]

def step (s : ApprovalMap I A) : MapEvent I A → Option (ApprovalMap I A)
  | .create id isQuestion =>
    if (s id).isSome then none else some (Function.update s id (some (.create isQuestion)))
  | .step id event => do
    let a ← s id
    let a' ← a.step event
    return Function.update s id (some a')

def Careful (s : ApprovalMap I A) : MapEvent I A → Prop
  | .create _ _ => True
  | .step id event => ∀ a ∈ s id, a.Careful event

def Inv (s : ApprovalMap I A) : Prop := ∀ id a, s id = some a → a.Inv

variable {s s' : ApprovalMap I A} {event : MapEvent I A}

/-- A step keeps the approvals of all ids. -/
theorem Inv.step (h : Inv s) (hok : s.Careful event) (hstep : s.step event = some s') :
    Inv s' ∧ ∀ id a, s id = some a → ∃ a', s' id = some a' ∧ a.Keeps a' := by
  cases event with
  | create id isQuestion =>
    simp only [ApprovalMap.step] at hstep
    split_ifs at hstep with hfresh
    obtain rfl := Option.some.inj hstep
    constructor
    · intro id' a ha
      rw [Function.update_apply] at ha
      split_ifs at ha
      · obtain rfl := Option.some.inj ha
        exact .create isQuestion
      · exact h id' a ha
    · intro id' a ha
      refine ⟨a, ?_, .refl a⟩
      rw [Function.update_of_ne, ha]
      rintro rfl
      simp [ha] at hfresh
  | step id event =>
    obtain ⟨a, ha, hrest⟩ := Option.bind_eq_some_iff.mp hstep
    obtain ⟨a', ha', hs'⟩ := Option.bind_eq_some_iff.mp hrest
    obtain rfl := Option.some.inj hs'
    obtain ⟨hinv, hkeeps⟩ := (h id a ha).step (hok a ha) ha'
    constructor
    · intro id' b hb
      rw [Function.update_apply] at hb
      split_ifs at hb
      · obtain rfl := Option.some.inj hb
        exact hinv
      · exact h id' b hb
    · intro id' b hb
      by_cases hid : id' = id
      · subst hid
        obtain rfl := Option.some.inj (ha.symm.trans hb)
        exact ⟨a', Function.update_self _ _ _, hkeeps⟩
      · exact ⟨b, by rw [Function.update_of_ne hid, hb], .refl b⟩

theorem inv_run {events : List (MapEvent I A)} (h : Inv s)
    (hrun : Run ApprovalMap.step Careful s events s') :
    Inv s' ∧ ∀ id a, s id = some a → ∃ a', s' id = some a' ∧ a.Keeps a' := by
  induction hrun with
  | nil s => exact ⟨h, fun id a ha => ⟨a, ha, .refl a⟩⟩
  | cons hok hstep _ ih =>
    obtain ⟨hmid, hfirst⟩ := h.step hok hstep
    obtain ⟨hend, hrest⟩ := ih hmid
    refine ⟨hend, fun id a ha => ?_⟩
    obtain ⟨a', ha', hkeeps⟩ := hfirst id a ha
    obtain ⟨a'', ha'', hkeeps'⟩ := hrest id a' ha'
    exact ⟨a'', ha'', hkeeps.trans hkeeps'⟩

end ApprovalMap

/-- In a careful run the waiter, the completed map and the successful call agree on one outcome, which
stays, and an approval that is pending is still subject to its timeout. -/
theorem approvals_settle_once [DecidableEq I] (events : List (MapEvent I A)) (s : ApprovalMap I A)
    (hrun : Run ApprovalMap.step ApprovalMap.Careful (fun _ => none) events s) (id : I)
    (a : Approval A) (ha : s id = some a) :
    a.Consistent ∧ (a.sender = .pending → a.TimesOut) ∧
      ∀ later s', Run ApprovalMap.step ApprovalMap.Careful s later s' →
        ∃ a', s' id = some a' ∧ a.Keeps a' := by
  have hnone : ApprovalMap.Inv (fun _ => none : ApprovalMap I A) := fun _ _ h => by cases h
  obtain ⟨hinv, _⟩ := ApprovalMap.inv_run hnone hrun
  have h := hinv id a ha
  exact ⟨h.consistent, h.timesOut, fun later s' hlater => (ApprovalMap.inv_run hinv hlater).2 id a ha⟩

section Runs

/-- An approval is cancelled: the completed map has the cancellation, the waiter and afterwards the map
have the timeout. -/
theorem cancel_overwritten :
    ∃ a a' : Approval Unit,
      Run Approval.step (fun _ _ => True) (.create false) [.cancel, .cancelStore, .cancelDrop] a ∧
      Run Approval.step (fun _ _ => True) a [.wake, .watcherStore] a' ∧
      a.completed = some cancelledOutcome ∧ a.answer = some cancelledOutcome ∧
      a.waiter = some .timedOut ∧ a'.completed = some .timedOut ∧ ¬ a.Consistent := by
  refine ⟨_, _, .cons trivial rfl (.cons trivial rfl (.cons trivial rfl (.nil _))),
    .cons trivial rfl (.cons trivial rfl (.nil _)), rfl, rfl, rfl, rfl, fun h => ?_⟩
  have hcompleted := h.waiter .timedOut rfl
  cases hcompleted

/-- The watcher looks for an approval while an invalid response holds it: it is pending again, and
nothing will time it out. -/
theorem rejected_without_timeout :
    ∃ a : Approval Unit,
      Run Approval.step (fun _ _ => True) (.create true)
        [.timeout, .respond .approved, .watcherStore, .watcherRemove, .reject] a ∧
      a.sender = .pending ∧ a.watcher = .finished ∧ ¬ a.Consistent :=
  ⟨_, .cons trivial rfl (.cons trivial rfl (.cons trivial rfl (.cons trivial rfl
    (.cons trivial rfl (.nil _))))), rfl, rfl, fun h => (h.pending rfl).1 rfl⟩

/-- A question gets an invalid response, and then an answer. -/
theorem approvals_settle_once_question : ∃ s : ApprovalMap ℕ Unit, ∃ a,
    Run ApprovalMap.step ApprovalMap.Careful (fun _ => none)
      [.create 0 true, .step 0 (.respond .approved), .step 0 .reject,
        .step 0 (.respond (.answered ())), .step 0 .store, .step 0 .send, .step 0 .wake] s ∧
      s 0 = some a ∧ a.waiter = some (.answered ()) ∧ a.Consistent := by
  have hwaiting (status : ApprovalOutcome Unit) (x : Option (Approval Unit))
      (hx : x = some (.create true)) : ∀ a ∈ x, a.Careful (.respond status) := by
    intro a ha outcome houtcome
    obtain rfl := Option.some.inj (hx.symm.trans ha)
    cases houtcome
  have hrun : Run ApprovalMap.step ApprovalMap.Careful (fun _ => none : ApprovalMap ℕ Unit)
      [.create 0 true, .step 0 (.respond .approved), .step 0 .reject,
        .step 0 (.respond (.answered ())), .step 0 .store, .step 0 .send, .step 0 .wake] _ :=
    .cons trivial rfl (.cons (hwaiting _ _ rfl) rfl (.cons (fun _ _ => trivial) rfl
      (.cons (hwaiting _ _ rfl) rfl (.cons (fun _ _ => trivial) rfl (.cons (fun _ _ => trivial) rfl
        (.cons (fun _ _ => trivial) rfl (.nil _)))))))
  exact ⟨_, _, hrun, rfl, rfl, (approvals_settle_once _ _ hrun 0 _ rfl).1⟩

end Runs

end VibeKanban.Approvals
