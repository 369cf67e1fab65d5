import VibeKanban.Agent.Event

/-! The monitor of a provider process: what reaches it in any order, why it ends, and the terminal
status it reports. -/
namespace VibeKanban.Host
open Agent
open VibeKanban.Runtime (AgentRunStatus)

inductive OutputNotice where
  | stdoutClosed
  | stderrClosed
  | mapped (event : AgentEventPayload)
  | providerTerminal (status : AgentRunStatus)
  | auditFailure (error : String)
  | protocolFailure (error : String)
  deriving DecidableEq, Repr

/-- One read of standard output: the outcome of its audit frame and the events it is mapped to. -/
inductive StdoutRead where
  | frame (audit : Except String Unit) (mapped : Except String (List AgentEventPayload))
  | failed (error : String)

inductive StderrRead where
  | frame (audit : Except String Unit)
  | failed (error : String)

/-- The terminal status an event stands for; an Error counts as a failure. -/
def terminalStatus : AgentEventPayload → Option AgentRunStatus
  | .lifecycleChanged status => if status.isTerminal then some status else none
  | .error _ => some .failed
  | _ => none

/-- The events of a frame up to the first terminal one. -/
def eventNotices : List AgentEventPayload → List OutputNotice
  | [] => []
  | event :: rest =>
    match terminalStatus event with
    | some status => [.mapped event, .providerTerminal status]
    | none => .mapped event :: eventNotices rest

/-- The reader of standard output goes on after a terminal event and ends with a failure or the
end of the stream. -/
def stdoutNotices : List StdoutRead → List OutputNotice
  | [] => [.stdoutClosed]
  | .failed error :: _ => [.protocolFailure error, .stdoutClosed]
  | .frame (.error error) _ :: _ => [.auditFailure error, .stdoutClosed]
  | .frame (.ok _) (.error error) :: _ => [.protocolFailure error, .stdoutClosed]
  | .frame (.ok _) (.ok events) :: rest => eventNotices events ++ stdoutNotices rest

def stderrNotices : List StderrRead → List OutputNotice
  | [] => [.stderrClosed]
  | .failed error :: _ => [.protocolFailure error, .stderrClosed]
  | .frame (.error error) :: _ => [.auditFailure error, .stderrClosed]
  | .frame (.ok _) :: rest => stderrNotices rest

inductive ExecutorExitResult where
  | success | failure
  deriving DecidableEq, Repr

inductive ExitCause where
  | process (success : Bool) (code : Option ℤ)
  | executor (result : ExecutorExitResult)
  | executorChannelClosed
  | providerTerminal (status : AgentRunStatus)
  | cancelled
  | auditFailure (error : String)
  | protocolFailure (error : String)
  | waitFailure (error : String)
  deriving DecidableEq, Repr

/-- A control command with the outcomes of the calls it leads to. -/
structure ControlCommand where
  bytes : List UInt8
  direct : Bool
  cancel : Bool
  sent : Except String (List UInt8)
  written : Except String Unit
  audited : Except String Unit
  killed : Except String Unit

inductive Pipe where
  | stdout | stderr
  deriving DecidableEq, Repr

/-- What reaches the monitor. A mapped event comes with the outcome of its journal append;
`hangUp` is a notice channel whose senders are gone. -/
inductive Arrival where
  | exited (status : Except String (Bool × Option ℤ))
  | executor (result : Option ExecutorExitResult)
  | notice (pipe : Pipe) (notice : OutputNotice) (journaled : Except String Unit)
  | hangUp
  | command (command : ControlCommand)

/-- The provider and the outcomes of the calls after the loop. -/
structure Setup where
  providerId : String
  hasControl : Bool
  hasStdin : Bool
  killed : Except String Unit
  closed : Except String Unit
  failedClosed : Except String Unit

def sentBytes (setup : Setup) (command : ControlCommand) : Except String (List UInt8) :=
  if setup.hasControl then
    if command.direct then command.sent
    else if !command.cancel then .error "provider control payload is missing"
    else .ok []
  else if !command.bytes.isEmpty then
    if setup.hasStdin then command.written.map fun _ => command.bytes
    else if !command.cancel then .error "provider stdin is owned by its protocol adapter"
    else .ok []
  else .ok []

/-- What follows once the bytes are sent: they are audited, and a cancellation kills the process. -/
def finishControl (command : ControlCommand) (sent : List UInt8) : Option ExitCause :=
  match if sent.isEmpty then .ok () else command.audited with
  | .error error => some (.auditFailure error)
  | .ok _ =>
    if command.cancel then
      match command.killed with
      | .ok _ => some .cancelled
      | .error error => some (.waitFailure error)
    else none

/-- The cause a control command ends the loop with, if any. A cancellation is accepted also when
the provider-native interrupt fails. -/
def controlCause (setup : Setup) (command : ControlCommand) : Option ExitCause :=
  match sentBytes setup command with
  | .ok sent => finishControl command sent
  | .error error =>
    if !command.cancel then some (.protocolFailure error) else finishControl command []

/-- The streams closed so far. -/
structure Streams where
  stdoutClosed : Bool
  stderrClosed : Bool
  deriving DecidableEq, Repr

def Streams.closed (streams : Streams) : Bool := streams.stdoutClosed && streams.stderrClosed

/-- How the loop ended: its cause, whether a cancellation was accepted before it, the closed
streams and what arrives afterwards. -/
structure LoopExit where
  cause : ExitCause
  cancellationRequested : Bool
  streams : Streams
  rest : List Arrival

/-- A notice changes the closed streams or ends the loop. -/
def noticeStep (streams : Streams) (notice : OutputNotice) (journaled : Except String Unit) :
    Except ExitCause Streams :=
  match notice with
  | .stdoutClosed => .ok { streams with stdoutClosed := true }
  | .stderrClosed => .ok { streams with stderrClosed := true }
  | .mapped _ =>
    match journaled with
    | .ok _ => .ok streams
    | .error error => .error (.auditFailure error)
  | .providerTerminal status => .error (.providerTerminal status)
  | .auditFailure error => .error (.auditFailure error)
  | .protocolFailure error => .error (.protocolFailure error)

def monitorLoop (setup : Setup) : Streams → List Arrival → Option LoopExit
  | _, [] => none
  | streams, .exited (.ok (success, code)) :: rest =>
    some ⟨.process success code, false, streams, rest⟩
  | streams, .exited (.error error) :: rest => some ⟨.waitFailure error, false, streams, rest⟩
  | streams, .executor (some result) :: rest => some ⟨.executor result, false, streams, rest⟩
  | streams, .executor none :: rest => some ⟨.executorChannelClosed, false, streams, rest⟩
  | streams, .notice _ notice journaled :: rest =>
    if streams.closed then monitorLoop setup streams rest
    else match noticeStep streams notice journaled with
      | .ok streams => monitorLoop setup streams rest
      | .error cause => some ⟨cause, false, streams, rest⟩
  | streams, .hangUp :: rest =>
    monitorLoop setup (if streams.closed then streams else ⟨true, true⟩) rest
  | streams, .command command :: rest =>
    match controlCause setup command with
    | none => monitorLoop setup streams rest
    | some cause =>
      some ⟨cause, command.cancel && (cause matches .cancelled | .waitFailure _), streams, rest⟩

/-- How the drain ended: with a cause of its own, with both streams closed, or at its deadline. -/
inductive DrainResult where
  | failed (cause : ExitCause)
  | closed (terminal : Option AgentRunStatus)
  | deadline
  deriving DecidableEq, Repr

/-- Read the remaining notices; the last provider terminal is kept. What arrives behind is given
back. -/
def drain : Streams → Option AgentRunStatus → List Arrival → DrainResult × List Arrival
  | streams, terminal, arrivals =>
    if streams.closed then (.closed terminal, arrivals)
    else match arrivals with
      | [] => (.deadline, [])
      | .notice _ (.providerTerminal status) _ :: rest => drain streams (some status) rest
      | .notice _ notice journaled :: rest =>
        match noticeStep streams notice journaled with
        | .ok streams => drain streams terminal rest
        | .error cause => (.failed cause, rest)
      | .hangUp :: rest => (.closed terminal, rest)
      | _ :: rest => drain streams terminal rest
  termination_by structural _ _ arrivals => arrivals

def preferDrainedProviderTerminal (cause : ExitCause) (providerStatus : AgentRunStatus)
    (cancellationRequested : Bool) : ExitCause :=
  if cancellationRequested ||
      (cause matches .cancelled | .auditFailure _ | .protocolFailure _ | .waitFailure _) ||
      (decide (providerStatus = .succeeded) &&
        (cause matches .executor .failure | .executorChannelClosed | .process false _)) then cause
  else .providerTerminal providerStatus

/-- The payload of the Terminal event. -/
structure HostTerminal where
  status : AgentRunStatus
  error : Option AgentRuntimeError
  exitCode : Option ℤ
  deriving DecidableEq, Repr

def runtimeError (providerId : String) (kind : AgentRuntimeErrorKind) (message : String) :
    Option AgentRuntimeError :=
  some ⟨kind, message, some providerId, none, none⟩

def terminalFromExit (providerId : String) : ExitCause → HostTerminal
  | .executor .success => ⟨.succeeded, none, some 0⟩
  | .executor .failure =>
    ⟨.failed, runtimeError providerId .unknown "provider executor reported failure", some 1⟩
  | .executorChannelClosed =>
    ⟨.crashed, runtimeError providerId .processCrashed "provider exit channel closed", none⟩
  | .providerTerminal status => ⟨status, none, if status = .succeeded then some 0 else none⟩
  | .cancelled => ⟨.cancelled, none, none⟩
  | .auditFailure message => ⟨.auditFailed, runtimeError providerId .unknown message, none⟩
  | .protocolFailure message => ⟨.failed, runtimeError providerId .outputParseFailed message, none⟩
  | .waitFailure message => ⟨.crashed, runtimeError providerId .processCrashed message, none⟩
  | .process false code =>
    ⟨.failed, runtimeError providerId .processCrashed "provider process exited unsuccessfully", code⟩
  | .process true code =>
    ⟨.crashed, runtimeError providerId .processCrashed
      "provider process exited without provider success evidence", code⟩

/-- Unless the process is gone already, it is killed after the loop. -/
def LoopExit.afterKill (setup : Setup) (exit : LoopExit) : ExitCause :=
  if !exit.cancellationRequested && !(exit.cause matches .process .. | .cancelled) then
    match setup.killed with
    | .ok _ => exit.cause
    | .error error => .waitFailure error
  else exit.cause

def Arrival.isOutput : Arrival → Bool
  | notice .. | hangUp => true
  | _ => false

/-- The cause after the output was drained. -/
def LoopExit.settled (setup : Setup) (exit : LoopExit) : ExitCause :=
  match (drain exit.streams none (exit.rest.filter (·.isOutput))).1 with
  | .failed cause => cause
  | .closed none => exit.afterKill setup
  | .closed (some status) =>
    preferDrainedProviderTerminal (exit.afterKill setup) status exit.cancellationRequested
  | .deadline =>
    .auditFailure "provider output streams did not close before the audit drain deadline"

/-- The Terminal event of a run, if the monitor gets as far. -/
def monitorProcess (setup : Setup) (arrivals : List Arrival) : Option HostTerminal :=
  (monitorLoop setup ⟨false, false⟩ arrivals).bind fun exit =>
    let terminal := terminalFromExit setup.providerId (exit.settled setup)
    let closed := if terminal.status = .auditFailed then setup.failedClosed else setup.closed
    match closed with
    | .ok _ => some terminal
    | .error error =>
      match setup.failedClosed with
      | .ok _ => some ⟨.auditFailed, runtimeError setup.providerId .unknown error, terminal.exitCode⟩
      | .error _ => none

/-- What the monitor received before it reported. -/
def observed (setup : Setup) (arrivals : List Arrival) : List Arrival :=
  match monitorLoop setup ⟨false, false⟩ arrivals with
  | none => arrivals
  | some exit =>
    let outputs := exit.rest.filter (·.isOutput)
    arrivals.take (arrivals.length - exit.rest.length) ++
      outputs.take (outputs.length - (drain exit.streams none outputs).2.length)

/-- The provider or the executor reports success. -/
def Arrival.reportsSuccess : Arrival → Bool
  | notice _ (.providerTerminal status) _ => decide (status = .succeeded)
  | executor (some .success) => true
  | _ => false

/-- A provider Error, a failed terminal, a failure of the audit or the protocol, or an accepted
cancellation. -/
def Arrival.refutesSuccess (setup : Setup) : Arrival → Bool
  | notice _ (.mapped event) journaled =>
    (terminalStatus event).any (· ≠ .succeeded) || (journaled matches .error _)
  | notice _ (.providerTerminal status) _ => decide (status ≠ .succeeded)
  | notice _ (.auditFailure _) _ | notice _ (.protocolFailure _) _ => true
  | command c => (controlCause setup c).isSome
  | _ => false

def StdoutRead.fails : StdoutRead → Bool
  | frame (.ok _) (.ok _) => false
  | _ => true

def StderrRead.fails : StderrRead → Bool
  | frame (.ok _) => false
  | _ => true

/-- The terminal statuses that the provider's output carries, one for a frame. -/
def providerTerminals (reads : List StdoutRead) : List AgentRunStatus :=
  reads.filterMap fun
    | .frame _ (.ok events) => events.findSome? terminalStatus
    | _ => none

def Arrival.sentBy (pipe : Pipe) : Arrival → Option OutputNotice
  | .notice source sent _ => if source = pipe then some sent else none
  | _ => none

def noticesOf (pipe : Pipe) (arrivals : List Arrival) : List OutputNotice :=
  arrivals.filterMap (·.sentBy pipe)

/-- The notices of the two readers arrive in their own order, with anything else in between. Both
readers close before they go. -/
structure Arrives (stdout : List StdoutRead) (stderr : List StderrRead) (arrivals : List Arrival) :
    Prop where
  stdout : noticesOf .stdout arrivals <+: stdoutNotices stdout
  stderr : noticesOf .stderr arrivals <+: stderrNotices stderr
  connected : .hangUp ∉ arrivals

/-- Success is reported only with evidence for it and none against it, and never for an output that
carried a failure. -/
def Sound (stdout : List StdoutRead) (setup : Setup) (arrivals : List Arrival) : Prop :=
  ∀ terminal, monitorProcess setup arrivals = some terminal → terminal.status = .succeeded →
    (∃ a ∈ observed setup arrivals, a.reportsSuccess = true) ∧
    (∀ a ∈ observed setup arrivals, a.refutesSuccess setup = false) ∧
    ∀ status ∈ providerTerminals stdout, status = .succeeded

section Readers

def OutputNotice.terminal? : OutputNotice → Option AgentRunStatus
  | providerTerminal status => some status
  | _ => none

def OutputNotice.isFailure : OutputNotice → Bool
  | auditFailure _ | protocolFailure _ => true
  | _ => false

def OutputNotice.isClosing : OutputNotice → Bool
  | stdoutClosed | stderrClosed => true
  | _ => false

theorem eventNotices_plain {events : List AgentEventPayload} {notice : OutputNotice}
    (h : notice ∈ eventNotices events) : notice.isClosing = false ∧ notice.isFailure = false := by
  induction events with
  | nil => cases h
  | cons event rest ih =>
    rw [eventNotices] at h
    split at h
    · simp only [List.mem_cons, List.not_mem_nil, or_false] at h
      rcases h with rfl | rfl
      · exact ⟨rfl, rfl⟩
      · exact ⟨rfl, rfl⟩
    · rcases List.mem_cons.mp h with rfl | h
      · exact ⟨rfl, rfl⟩
      · exact ih h

theorem eventNotices_terminal (events : List AgentEventPayload) :
    (eventNotices events).filterMap (·.terminal?) =
      (events.findSome? terminalStatus).toList := by
  induction events with
  | nil => rfl
  | cons event rest ih =>
    rw [eventNotices, List.findSome?_cons]
    cases terminalStatus event with
    | none => exact ih
    | some status => rfl

/-- A mapped event that stands for a terminal status is followed by it. -/
theorem eventNotices_mapped {events : List AgentEventPayload} {event : AgentEventPayload}
    {status : AgentRunStatus} (h : .mapped event ∈ eventNotices events)
    (hstatus : terminalStatus event = some status) :
    .providerTerminal status ∈ eventNotices events := by
  induction events with
  | nil => cases h
  | cons first rest ih =>
    rw [eventNotices] at h ⊢
    cases hfirst : terminalStatus first with
    | some found =>
      simp only [hfirst, List.mem_cons, OutputNotice.mapped.injEq, reduceCtorEq, List.not_mem_nil,
        or_false] at h ⊢
      rw [h, hfirst] at hstatus
      exact Or.inr (congrArg OutputNotice.providerTerminal (Option.some.inj hstatus)).symm
    | none =>
      simp only [hfirst, List.mem_cons, OutputNotice.mapped.injEq] at h ⊢
      rcases h with rfl | h
      · rw [hfirst] at hstatus
        cases hstatus
      · exact Or.inr (ih h)

theorem stdoutNotices_closing (reads : List StdoutRead) : ∃ front,
    stdoutNotices reads = front ++ [.stdoutClosed] ∧ ∀ notice ∈ front, notice.isClosing = false := by
  induction reads with
  | nil => exact ⟨[], rfl, fun _ h => by cases h⟩
  | cons read rest ih =>
    match read with
    | .failed error => exact ⟨[.protocolFailure error], rfl, by simp [OutputNotice.isClosing]⟩
    | .frame (.error error) _ => exact ⟨[.auditFailure error], rfl, by simp [OutputNotice.isClosing]⟩
    | .frame (.ok _) (.error error) =>
      exact ⟨[.protocolFailure error], rfl, by simp [OutputNotice.isClosing]⟩
    | .frame (.ok _) (.ok events) =>
      obtain ⟨front, hfront, hplain⟩ := ih
      refine ⟨eventNotices events ++ front, by rw [stdoutNotices, hfront, List.append_assoc], ?_⟩
      intro notice hnotice
      rcases List.mem_append.mp hnotice with hnotice | hnotice
      · exact (eventNotices_plain hnotice).1
      · exact hplain notice hnotice

theorem stderrNotices_closing (reads : List StderrRead) : ∃ front,
    stderrNotices reads = front ++ [.stderrClosed] ∧ ∀ notice ∈ front, notice.isFailure = true := by
  induction reads with
  | nil => exact ⟨[], rfl, fun _ h => by cases h⟩
  | cons read rest ih =>
    match read with
    | .failed error => exact ⟨[.protocolFailure error], rfl, by simp [OutputNotice.isFailure]⟩
    | .frame (.error error) => exact ⟨[.auditFailure error], rfl, by simp [OutputNotice.isFailure]⟩
    | .frame (.ok _) => exact ih

/-- A notice that neither closes a stream nor reports a failure. -/
def OutputNotice.Plain (sent : OutputNotice) : Prop := sent.isClosing = false ∧ sent.isFailure = false

/-- Without failures the notices carry the terminals of the output. -/
theorem stdoutNotices_of_plain {reads : List StdoutRead} (h : ∀ read ∈ reads, read.fails = false) :
    ∃ front, stdoutNotices reads = front ++ [.stdoutClosed] ∧ (∀ sent ∈ front, sent.Plain) ∧
      front.filterMap (·.terminal?) = providerTerminals reads := by
  induction reads with
  | nil => exact ⟨[], rfl, fun sent hmem => absurd hmem List.not_mem_nil, rfl⟩
  | cons read rest ih =>
    obtain ⟨front, hfront, hplain, hterminals⟩ :=
      ih fun read hread => h read (List.mem_cons_of_mem _ hread)
    match read with
    | .failed error => cases h _ List.mem_cons_self
    | .frame (.error error) _ => cases h _ List.mem_cons_self
    | .frame (.ok _) (.error error) => cases h _ List.mem_cons_self
    | .frame (.ok _) (.ok events) =>
      refine ⟨eventNotices events ++ front, ?_, ?_, ?_⟩
      · rw [stdoutNotices, hfront, List.append_assoc]
      · intro sent hsent
        rcases List.mem_append.mp hsent with hsent | hsent
        · exact eventNotices_plain hsent
        · exact hplain sent hsent
      · rw [List.filterMap_append, eventNotices_terminal, hterminals]
        cases hfound : events.findSome? terminalStatus with
        | none => simp [hfound, providerTerminals]
        | some status => simp [hfound, providerTerminals]

theorem stdoutNotices_plain {reads : List StdoutRead}
    (h : ∀ notice ∈ stdoutNotices reads, notice.isFailure = false) :
    ∀ read ∈ reads, read.fails = false := by
  induction reads with
  | nil => nofun
  | cons read rest ih =>
    match read with
    | .failed error => exact absurd (h _ List.mem_cons_self) (by simp [OutputNotice.isFailure])
    | .frame (.error error) _ =>
      exact absurd (h _ List.mem_cons_self) (by simp [OutputNotice.isFailure])
    | .frame (.ok _) (.error error) =>
      exact absurd (h _ List.mem_cons_self) (by simp [OutputNotice.isFailure])
    | .frame (.ok _) (.ok events) =>
      intro read hread
      rcases List.mem_cons.mp hread with rfl | hread
      · rfl
      · exact ih (fun notice hnotice => h notice (List.mem_append_right _ hnotice)) read hread

theorem stderrNotices_plain {reads : List StderrRead}
    (h : ∀ notice ∈ stderrNotices reads, notice.isFailure = false) :
    ∀ read ∈ reads, read.fails = false := by
  induction reads with
  | nil => nofun
  | cons read rest ih =>
    match read with
    | .failed error => exact absurd (h _ List.mem_cons_self) (by simp [OutputNotice.isFailure])
    | .frame (.error error) =>
      exact absurd (h _ List.mem_cons_self) (by simp [OutputNotice.isFailure])
    | .frame (.ok _) =>
      intro read hread
      rcases List.mem_cons.mp hread with rfl | hread
      · rfl
      · exact ih h read hread

theorem stdoutNotices_mapped {reads : List StdoutRead} {event : AgentEventPayload}
    {status : AgentRunStatus} (h : .mapped event ∈ stdoutNotices reads)
    (hstatus : terminalStatus event = some status) :
    .providerTerminal status ∈ stdoutNotices reads := by
  induction reads with
  | nil => simp [stdoutNotices] at h
  | cons read rest ih =>
    match read with
    | .failed error => simp [stdoutNotices] at h
    | .frame (.error error) _ => simp [stdoutNotices] at h
    | .frame (.ok _) (.error error) => simp [stdoutNotices] at h
    | .frame (.ok _) (.ok events) =>
      rw [stdoutNotices] at h ⊢
      rcases List.mem_append.mp h with h | h
      · exact List.mem_append_left _ (eventNotices_mapped h hstatus)
      · exact List.mem_append_right _ (ih h)

end Readers

section Monitor

/-- The cause an arrival ends the loop with. -/
def Arrival.cause? (setup : Setup) : Arrival → Option ExitCause
  | exited (.ok (success, code)) => some (.process success code)
  | exited (.error error) => some (.waitFailure error)
  | executor (some result) => some (.executor result)
  | executor none => some .executorChannelClosed
  | notice _ sent journaled =>
    match noticeStep ⟨false, false⟩ sent journaled with
    | .ok _ => none
    | .error cause => some cause
  | hangUp => none
  | command c => controlCause setup c

def ExitCause.isFailure : ExitCause → Bool
  | cancelled | auditFailure _ | protocolFailure _ | waitFailure _ => true
  | _ => false

/-- A stream counts as closed only after the notice that closes it. -/
def Streams.ClosedBy (streams : Streams) (arrivals : List Arrival) : Prop :=
  (streams.stdoutClosed = true → .stdoutClosed ∈ noticesOf .stdout arrivals) ∧
    (streams.stderrClosed = true → .stderrClosed ∈ noticesOf .stderr arrivals)

@[simp] theorem noticesOf_append (pipe : Pipe) (l₁ l₂ : List Arrival) :
    noticesOf pipe (l₁ ++ l₂) = noticesOf pipe l₁ ++ noticesOf pipe l₂ :=
  List.filterMap_append

theorem noticesOf_filter (pipe : Pipe) (arrivals : List Arrival) :
    noticesOf pipe (arrivals.filter (·.isOutput)) = noticesOf pipe arrivals := by
  induction arrivals with
  | nil => rfl
  | cons a rest ih =>
    cases a with
    | notice source sent journaled =>
      change noticesOf pipe (_ :: _) = noticesOf pipe (_ :: _)
      simp only [noticesOf, List.filterMap_cons] at ih ⊢
      rw [ih]
    | _ => exact ih

theorem noticesOf_single (pipe : Pipe) (sent : OutputNotice) (journaled : Except String Unit) :
    noticesOf pipe [.notice pipe sent journaled] = [sent] := by
  simp [noticesOf, Arrival.sentBy]

theorem Streams.ClosedBy.mono {streams : Streams} {l₁ : List Arrival} (l₂ : List Arrival)
    (h : streams.ClosedBy l₁) : streams.ClosedBy (l₁ ++ l₂) := by
  constructor
  · intro hclosed
    rw [noticesOf_append]
    exact List.mem_append_left _ (h.1 hclosed)
  · intro hclosed
    rw [noticesOf_append]
    exact List.mem_append_left _ (h.2 hclosed)

theorem finishControl_isFailure {c : ControlCommand} {sent : List UInt8} {cause : ExitCause}
    (h : finishControl c sent = some cause) : cause.isFailure = true := by
  unfold finishControl at h
  split at h
  · cases h
    rfl
  · split at h
    · split at h <;> cases h <;> rfl
    · cases h

theorem Streams.ClosedBy.both {streams : Streams} {arrivals : List Arrival}
    (h : streams.ClosedBy arrivals) (hclosed : streams.closed = true) :
    Streams.ClosedBy ⟨true, true⟩ arrivals := by
  have hboth : streams.stdoutClosed = true ∧ streams.stderrClosed = true := by
    simpa [Streams.closed] using hclosed
  exact ⟨fun _ => h.1 hboth.1, fun _ => h.2 hboth.2⟩

theorem controlCause_isFailure {setup : Setup} {c : ControlCommand} {cause : ExitCause}
    (h : controlCause setup c = some cause) : cause.isFailure = true := by
  unfold controlCause at h
  split at h
  · exact finishControl_isFailure h
  · split at h
    · cases h
      rfl
    · exact finishControl_isFailure h

theorem noticeStep_isFailure {streams : Streams} {sent : OutputNotice}
    {journaled : Except String Unit} {cause : ExitCause}
    (h : noticeStep streams sent journaled = .error cause) :
    cause.isFailure = true ∨ ∃ status, sent = .providerTerminal status ∧
      cause = .providerTerminal status := by
  cases sent with
  | mapped event =>
    cases journaled with
    | ok _ => cases h
    | error error =>
      cases h
      exact Or.inl rfl
  | providerTerminal status =>
    cases h
    exact Or.inr ⟨status, rfl, rfl⟩
  | auditFailure error =>
    cases h
    exact Or.inl rfl
  | protocolFailure error =>
    cases h
    exact Or.inl rfl
  | _ => cases h

/-- What a notice that keeps the monitor going does to the streams. -/
theorem noticeStep_closedBy {streams streams' : Streams} {pipe : Pipe} {sent : OutputNotice}
    {journaled : Except String Unit} {before : List Arrival} (hclosed : streams.ClosedBy before)
    (hpipe : (sent = .stdoutClosed → pipe = .stdout) ∧ (sent = .stderrClosed → pipe = .stderr))
    (h : noticeStep streams sent journaled = .ok streams') :
    streams'.ClosedBy (before ++ [.notice pipe sent journaled]) := by
  have hmono := hclosed.mono [.notice pipe sent journaled]
  cases sent with
  | stdoutClosed =>
    cases h
    obtain rfl := hpipe.1 rfl
    refine ⟨?_, hmono.2⟩
    intro _
    rw [noticesOf_append, noticesOf_single]
    exact List.mem_append_right _ List.mem_cons_self
  | stderrClosed =>
    cases h
    obtain rfl := hpipe.2 rfl
    refine ⟨hmono.1, ?_⟩
    intro _
    rw [noticesOf_append, noticesOf_single]
    exact List.mem_append_right _ List.mem_cons_self
  | mapped event =>
    cases journaled with
    | ok _ =>
      cases h
      exact hmono
    | error error => cases h
  | _ => cases h

end Monitor

section Arrivals
variable {stdout : List StdoutRead} {stderr : List StderrRead}

theorem prefix_complete {α : Type*} {l front : List α} {x : α} (h : l <+: front ++ [x])
    (hx : x ∈ l) (hfront : x ∉ front) : l = front ++ [x] := by
  rcases List.prefix_concat_iff.mp h with h | h
  · exact h
  · exact absurd (h.subset hx) hfront

theorem Arrives.of_prefix {l₁ l₂ : List Arrival} (h : Arrives stdout stderr (l₁ ++ l₂)) :
    Arrives stdout stderr l₁ := by
  constructor
  · have hout := h.stdout
    rw [noticesOf_append] at hout
    exact (List.prefix_append _ _).trans hout
  · have herr := h.stderr
    rw [noticesOf_append] at herr
    exact (List.prefix_append _ _).trans herr
  · intro hmem
    exact h.connected (List.mem_append_left _ hmem)

/-- A reader that closed has sent all its notices. -/
theorem Arrives.stdout_complete {arrivals : List Arrival} (h : Arrives stdout stderr arrivals)
    (hclosed : .stdoutClosed ∈ noticesOf .stdout arrivals) :
    noticesOf .stdout arrivals = stdoutNotices stdout := by
  obtain ⟨front, hfront, hplain⟩ := stdoutNotices_closing stdout
  have hprefix := h.stdout
  rw [hfront] at hprefix ⊢
  apply prefix_complete hprefix hclosed
  intro hmem
  have hclosing := hplain _ hmem
  cases hclosing

theorem Arrives.stderr_complete {arrivals : List Arrival} (h : Arrives stdout stderr arrivals)
    (hclosed : .stderrClosed ∈ noticesOf .stderr arrivals) :
    noticesOf .stderr arrivals = stderrNotices stderr := by
  obtain ⟨front, hfront, hplain⟩ := stderrNotices_closing stderr
  have hprefix := h.stderr
  rw [hfront] at hprefix ⊢
  apply prefix_complete hprefix hclosed
  intro hmem
  have hfailure := hplain _ hmem
  cases hfailure

theorem mem_noticesOf {pipe : Pipe} {sent : OutputNotice} {journaled : Except String Unit}
    {arrivals : List Arrival} (h : .notice pipe sent journaled ∈ arrivals) :
    sent ∈ noticesOf pipe arrivals :=
  List.mem_filterMap.mpr ⟨_, h, by simp [Arrival.sentBy]⟩

theorem Arrives.mem_stdout {arrivals : List Arrival} {sent : OutputNotice}
    {journaled : Except String Unit} (h : Arrives stdout stderr arrivals)
    (hmem : .notice .stdout sent journaled ∈ arrivals) : sent ∈ stdoutNotices stdout :=
  h.stdout.subset (mem_noticesOf hmem)

/-- Standard error carries failures and its end only. -/
theorem Arrives.mem_stderr {arrivals : List Arrival} {sent : OutputNotice}
    {journaled : Except String Unit} (h : Arrives stdout stderr arrivals)
    (hmem : .notice .stderr sent journaled ∈ arrivals) :
    sent ∈ stderrNotices stderr ∧ (sent.isFailure = true ∨ sent = .stderrClosed) := by
  have hsent : sent ∈ stderrNotices stderr := h.stderr.subset (mem_noticesOf hmem)
  refine ⟨hsent, ?_⟩
  obtain ⟨front, hfront, hplain⟩ := stderrNotices_closing stderr
  rw [hfront] at hsent
  rcases List.mem_append.mp hsent with hsent | hsent
  · exact Or.inl (hplain _ hsent)
  · exact Or.inr (List.mem_singleton.mp hsent)

theorem Arrives.pipe {arrivals : List Arrival} {pipe : Pipe} {sent : OutputNotice}
    {journaled : Except String Unit} (h : Arrives stdout stderr arrivals)
    (hmem : .notice pipe sent journaled ∈ arrivals) :
    (sent = .stdoutClosed → pipe = .stdout) ∧ (sent = .stderrClosed → pipe = .stderr) := by
  cases pipe with
  | stdout =>
    refine ⟨fun _ => rfl, ?_⟩
    rintro rfl
    obtain ⟨front, hfront, hplain⟩ := stdoutNotices_closing stdout
    have hsent := h.mem_stdout hmem
    rw [hfront, List.mem_append, List.mem_singleton] at hsent
    rcases hsent with hsent | hsent
    · cases hplain _ hsent
    · cases hsent
  | stderr =>
    refine ⟨?_, fun _ => rfl⟩
    rintro rfl
    rcases (h.mem_stderr hmem).2 with hfailure | hsent
    · cases hfailure
    · cases hsent

/-- Nothing arrives from the readers once both streams are closed. -/
theorem Arrives.quiet {before rest : List Arrival} {streams : Streams} {pipe : Pipe}
    {sent : OutputNotice} {journaled : Except String Unit}
    (h : Arrives stdout stderr (before ++ .notice pipe sent journaled :: rest))
    (hby : streams.ClosedBy before) : streams.closed = false := by
  by_contra hclosed
  have hboth : streams.stdoutClosed = true ∧ streams.stderrClosed = true := by
    simpa [Streams.closed] using hclosed
  have hbefore := h.of_prefix
  have hafter : Arrives stdout stderr (before ++ [.notice pipe sent journaled]) := by
    apply Arrives.of_prefix
    rwa [List.append_assoc]
  cases pipe with
  | stdout =>
    have hlength := hafter.stdout.length_le
    rw [noticesOf_append, noticesOf_single, hbefore.stdout_complete (hby.1 hboth.1)] at hlength
    simp at hlength
  | stderr =>
    have hlength := hafter.stderr.length_le
    rw [noticesOf_append, noticesOf_single, hbefore.stderr_complete (hby.2 hboth.2)] at hlength
    simp at hlength

/-- How a loop ends that started with `before` received: the arrivals it goes past have no cause,
the last one has. -/
structure LoopExit.Ends (setup : Setup) (before arrivals : List Arrival) (exit : LoopExit)
    (seen : List Arrival) (last : Arrival) : Prop where
  split : arrivals = seen ++ last :: exit.rest
  passed : ∀ a ∈ seen, a.cause? setup = none
  cause : last.cause? setup = some exit.cause
  closedBy : exit.streams.ClosedBy (before ++ seen ++ [last])
  cancelled : exit.cancellationRequested = true → exit.cause.isFailure = true

theorem LoopExit.Ends.cons {setup : Setup} {before arrivals seen : List Arrival} {exit : LoopExit}
    {a last : Arrival} (h : exit.Ends setup (before ++ [a]) arrivals seen last)
    (ha : a.cause? setup = none) : exit.Ends setup before (a :: arrivals) (a :: seen) last := by
  constructor
  · rw [h.split]
    rfl
  · intro b hb
    rcases List.mem_cons.mp hb with rfl | hb
    · exact ha
    · exact h.passed b hb
  · exact h.cause
  · have hclosed := h.closedBy
    rwa [List.append_assoc before [a] seen] at hclosed
  · exact h.cancelled

theorem LoopExit.Ends.here {setup : Setup} {before rest : List Arrival} {cause : ExitCause}
    {cancelled : Bool} {streams : Streams} {last : Arrival}
    (hcause : last.cause? setup = some cause) (hby : streams.ClosedBy before)
    (hcancelled : cancelled = true → cause.isFailure = true) :
    LoopExit.Ends setup before (last :: rest) ⟨cause, cancelled, streams, rest⟩ [] last := by
  constructor
  · rfl
  · intro a ha
    cases ha
  · exact hcause
  · rw [List.append_nil]
    exact hby.mono [last]
  · exact hcancelled

theorem Arrival.cause?_notice {setup : Setup} {streams : Streams} {pipe : Pipe}
    {sent : OutputNotice} {journaled : Except String Unit} :
    (Arrival.notice pipe sent journaled).cause? setup =
      match noticeStep streams sent journaled with
      | .ok _ => none
      | .error cause => some cause := by
  cases sent with
  | mapped event => cases journaled <;> rfl
  | _ => rfl

theorem monitorLoop_spec {setup : Setup} {streams : Streams} {before arrivals : List Arrival}
    {exit : LoopExit} (harrives : Arrives stdout stderr (before ++ arrivals))
    (hby : streams.ClosedBy before) (h : monitorLoop setup streams arrivals = some exit) :
    ∃ seen last, exit.Ends setup before arrivals seen last := by
  induction arrivals generalizing streams before with
  | nil => cases h
  | cons a rest ih =>
    have hnext : Arrives stdout stderr (before ++ [a] ++ rest) := by
      rwa [List.append_assoc]
    have hgo {streams' : Streams} (hby' : streams'.ClosedBy (before ++ [a]))
        (h' : monitorLoop setup streams' rest = some exit) (ha : a.cause? setup = none) :
        ∃ seen last, exit.Ends setup before (a :: rest) seen last := by
      obtain ⟨seen, last, hends⟩ := ih hnext hby' h'
      exact ⟨a :: seen, last, hends.cons ha⟩
    match a with
    | .exited (.ok (success, code)) =>
      cases h
      exact ⟨[], _, .here rfl hby nofun⟩
    | .exited (.error error) =>
      cases h
      exact ⟨[], _, .here rfl hby nofun⟩
    | .executor (some result) =>
      cases h
      exact ⟨[], _, .here rfl hby nofun⟩
    | .executor none =>
      cases h
      exact ⟨[], _, .here rfl hby nofun⟩
    | .notice pipe sent journaled =>
      have hpipe := harrives.pipe (List.mem_append_right before List.mem_cons_self)
      rw [monitorLoop, harrives.quiet hby] at h
      simp only [Bool.false_eq_true, if_false] at h
      split at h
      next streams' hstep =>
        exact hgo (noticeStep_closedBy hby hpipe hstep) h
          (by rw [Arrival.cause?_notice, hstep])
      next cause hstep =>
        cases h
        have hcause : (Arrival.notice pipe sent journaled).cause? setup = some cause := by
          rw [Arrival.cause?_notice, hstep]
        exact ⟨[], _, .here hcause hby nofun⟩
    | .hangUp => exact absurd (List.mem_append_right before List.mem_cons_self) harrives.connected
    | .command c =>
      rw [monitorLoop] at h
      split at h
      next hcause => exact hgo (hby.mono _) h hcause
      next cause hcause =>
        cases h
        exact ⟨[], _, .here hcause hby fun _ => controlCause_isFailure hcause⟩

theorem Arrives.terminal_pipe {arrivals : List Arrival} {pipe : Pipe} {status : AgentRunStatus}
    {journaled : Except String Unit} (h : Arrives stdout stderr arrivals)
    (hmem : .notice pipe (.providerTerminal status) journaled ∈ arrivals) : pipe = .stdout := by
  cases pipe with
  | stdout => rfl
  | stderr =>
    rcases (h.mem_stderr hmem).2 with hfailure | hsent
    · cases hfailure
    · cases hsent

theorem drain_of_plain {streams : Streams} {terminal : Option AgentRunStatus} {pipe : Pipe}
    {sent : OutputNotice} {journaled : Except String Unit} {rest : List Arrival}
    (hopen : streams.closed = false) (hsent : sent.terminal? = none) :
    drain streams terminal (.notice pipe sent journaled :: rest) =
      match noticeStep streams sent journaled with
      | .ok streams => drain streams terminal rest
      | .error cause => (.failed cause, rest) := by
  rw [drain, hopen, if_neg Bool.false_ne_true]
  rintro status rfl
  cases hsent

/-- What a drain that reached the end of both streams has read: arrivals without a cause and
provider terminals, the last of which counts. -/
structure Drained (setup : Setup) (before arrivals seen rest : List Arrival)
    (terminal final : Option AgentRunStatus) : Prop where
  split : arrivals = seen ++ rest
  closedBy : Streams.ClosedBy ⟨true, true⟩ (before ++ seen)
  plain : ∀ a ∈ seen, ∀ cause, a.cause? setup = some cause → ∃ status, cause = .providerTerminal status
  final : final = ((noticesOf .stdout seen).filterMap (·.terminal?)).getLast?.or terminal

theorem Drained.cons {setup : Setup} {before arrivals seen rest : List Arrival} {a : Arrival}
    {terminal terminal' final : Option AgentRunStatus}
    (h : Drained setup (before ++ [a]) arrivals seen rest terminal' final)
    (hplain : ∀ cause, a.cause? setup = some cause → ∃ status, cause = .providerTerminal status)
    (hterminal : terminal' =
      ((noticesOf .stdout [a]).filterMap (·.terminal?)).getLast?.or terminal) :
    Drained setup before (a :: arrivals) (a :: seen) rest terminal final := by
  constructor
  · rw [h.split]
    rfl
  · have hclosed := h.closedBy
    rwa [List.append_assoc] at hclosed
  · intro b hb
    rcases List.mem_cons.mp hb with rfl | hb
    · exact hplain
    · exact h.plain b hb
  · rw [h.final, hterminal, ← Option.or_assoc, ← List.getLast?_append, ← List.filterMap_append,
      ← noticesOf_append]
    rfl

theorem drain_spec {setup : Setup} {streams : Streams} {terminal final : Option AgentRunStatus}
    {before arrivals rest : List Arrival} (harrives : Arrives stdout stderr (before ++ arrivals))
    (houtput : ∀ a ∈ arrivals, a.isOutput = true) (hby : streams.ClosedBy before)
    (h : drain streams terminal arrivals = (.closed final, rest)) :
    ∃ seen, Drained setup before arrivals seen rest terminal final := by
  induction arrivals generalizing streams terminal before with
  | nil =>
    rw [drain] at h
    split at h
    next hclosed =>
      cases h
      refine ⟨[], rfl, ?_, ?_, by simp [noticesOf]⟩
      · rw [List.append_nil]
        exact hby.both hclosed
      · intro a ha
        cases ha
    next => cases h
  | cons a arrivals ih =>
    have hnext : Arrives stdout stderr (before ++ [a] ++ arrivals) := by
      rwa [List.append_assoc]
    have htail : ∀ b ∈ arrivals, b.isOutput = true := fun b hb => houtput b (List.mem_cons_of_mem _ hb)
    match a with
    | .exited _ => cases houtput _ List.mem_cons_self
    | .executor _ => cases houtput _ List.mem_cons_self
    | .command _ => cases houtput _ List.mem_cons_self
    | .hangUp => exact absurd (List.mem_append_right before List.mem_cons_self) harrives.connected
    | .notice pipe sent journaled =>
      have hmem : Arrival.notice pipe sent journaled ∈ before ++ .notice pipe sent journaled :: arrivals :=
        List.mem_append_right before List.mem_cons_self
      have hpipe := harrives.pipe hmem
      have hquiet := harrives.quiet hby
      cases hterminal : sent.terminal? with
      | some status =>
        cases sent with
        | providerTerminal reported =>
          rw [drain, hquiet, if_neg Bool.false_ne_true] at h
          obtain rfl : pipe = .stdout := harrives.terminal_pipe hmem
          obtain ⟨seen, hseen⟩ := ih hnext htail (hby.mono _) h
          refine ⟨_, hseen.cons ?_ rfl⟩
          intro cause hcause
          cases hcause
          exact ⟨reported, rfl⟩
        | _ => cases hterminal
      | none =>
        rw [drain_of_plain hquiet hterminal] at h
        split at h
        next streams' hstep =>
          obtain ⟨seen, hseen⟩ := ih hnext htail (noticeStep_closedBy hby hpipe hstep) h
          refine ⟨_, hseen.cons ?_ ?_⟩
          · intro cause hcause
            rw [Arrival.cause?_notice, hstep] at hcause
            cases hcause
          · cases pipe with
            | stdout => simp [noticesOf_single, hterminal]
            | stderr => simp [noticesOf, Arrival.sentBy]
        next => cases h

end Arrivals

section Success

theorem drain_closed {streams : Streams} {terminal : Option AgentRunStatus}
    {arrivals : List Arrival} (h : streams.closed = true) :
    drain streams terminal arrivals = (.closed terminal, arrivals) := by
  rw [drain.eq_def]
  simp only [h, if_true]

theorem drain_failed {streams : Streams} {terminal : Option AgentRunStatus}
    {arrivals rest : List Arrival} {cause : ExitCause}
    (h : drain streams terminal arrivals = (.failed cause, rest)) : cause.isFailure = true := by
  induction arrivals generalizing streams terminal with
  | nil =>
    rw [drain] at h
    split at h <;> cases h
  | cons a arrivals ih =>
    cases hopen : streams.closed with
    | true =>
      rw [drain_closed hopen] at h
      cases h
    | false =>
      match a with
      | .notice pipe (.providerTerminal status) journaled =>
        rw [drain, hopen, if_neg Bool.false_ne_true] at h
        exact ih h
      | .notice pipe sent journaled =>
        by_cases hterminal : sent.terminal? = none
        · rw [drain_of_plain hopen hterminal] at h
          split at h
          next => exact ih h
          next failure hstep =>
            cases h
            rcases noticeStep_isFailure hstep with hfailure | ⟨status, rfl, _⟩
            · exact hfailure
            · cases hterminal
        · cases sent with
          | providerTerminal status =>
            rw [drain, hopen, if_neg Bool.false_ne_true] at h
            exact ih h
          | _ => exact absurd rfl hterminal
      | .hangUp =>
        rw [drain, hopen, if_neg Bool.false_ne_true] at h
        cases h
      | .exited _ =>
        rw [drain, hopen, if_neg Bool.false_ne_true] at h
        · exact ih h
        all_goals simp
      | .executor _ =>
        rw [drain, hopen, if_neg Bool.false_ne_true] at h
        · exact ih h
        all_goals simp
      | .command _ =>
        rw [drain, hopen, if_neg Bool.false_ne_true] at h
        · exact ih h
        all_goals simp

theorem terminalFromExit_success {providerId : String} {cause : ExitCause}
    (h : (terminalFromExit providerId cause).status = .succeeded) :
    cause = .executor .success ∨ cause = .providerTerminal .succeeded := by
  match cause, h with
  | .executor .success, _ => exact Or.inl rfl
  | .providerTerminal status, h =>
    obtain rfl : status = .succeeded := h
    exact Or.inr rfl

theorem afterKill_success {setup : Setup} {exit : LoopExit}
    (h : (exit.afterKill setup).isFailure = false) : exit.afterKill setup = exit.cause := by
  unfold LoopExit.afterKill at h ⊢
  split_ifs at h ⊢ with hkill
  · cases hkilled : setup.killed with
    | ok _ => rfl
    | error error =>
      rw [hkilled] at h
      cases h
  · rfl

theorem preferDrained_success {cause : ExitCause} {status : AgentRunStatus} {cancelled : Bool}
    (hcancelled : cancelled = true → cause.isFailure = true)
    (h : preferDrainedProviderTerminal cause status cancelled = .executor .success ∨
      preferDrainedProviderTerminal cause status cancelled = .providerTerminal .succeeded) :
    cause.isFailure = false ∧ status = .succeeded := by
  unfold preferDrainedProviderTerminal at h
  split_ifs at h with hkeep
  · exfalso
    cases cancelled with
    | true =>
      have hfailure := hcancelled rfl
      rcases h with rfl | rfl <;> cases hfailure
    | false => rcases h with rfl | rfl <;> simp at hkeep
  · rcases h with h | h
    · cases h
    · cases h
      refine ⟨?_, rfl⟩
      cases cause <;> simp [ExitCause.isFailure] at hkeep ⊢

/-- A success is what the loop ended with or the last terminal of the drain. -/
theorem settled_success {setup : Setup} {exit : LoopExit}
    (hcancelled : exit.cancellationRequested = true → exit.cause.isFailure = true)
    (h : (terminalFromExit setup.providerId (exit.settled setup)).status = .succeeded) :
    ∃ final rest, drain exit.streams none (exit.rest.filter (·.isOutput)) = (.closed final, rest) ∧
      exit.cause.isFailure = false ∧ (final = some .succeeded ∨ final = none ∧
        (exit.cause = .executor .success ∨ exit.cause = .providerTerminal .succeeded)) := by
  have hcause := terminalFromExit_success h
  unfold LoopExit.settled at hcause
  rcases hdrain : drain exit.streams none (exit.rest.filter (·.isOutput)) with ⟨result, rest⟩
  rw [hdrain] at hcause
  match result with
  | .failed failure =>
    have hfailure := drain_failed hdrain
    rcases hcause with rfl | rfl <;> cases hfailure
  | .deadline => rcases hcause with hcause | hcause <;> cases hcause
  | .closed none =>
    have hkilled : (exit.afterKill setup).isFailure = false := by
      rcases hcause with hcause | hcause
      · rw [show exit.afterKill setup = _ from hcause]
        rfl
      · rw [show exit.afterKill setup = _ from hcause]
        rfl
    have heq := afterKill_success hkilled
    rw [heq] at hkilled
    refine ⟨none, rest, rfl, hkilled, Or.inr ⟨rfl, ?_⟩⟩
    rw [← heq]
    exact hcause
  | .closed (some status) =>
    have hafter : exit.cancellationRequested = true → (exit.afterKill setup).isFailure = true := by
      intro hrequested
      by_contra hfailure
      rw [afterKill_success (Bool.not_eq_true _ ▸ hfailure)] at hfailure
      exact hfailure (hcancelled hrequested)
    obtain ⟨hfailure, rfl⟩ := preferDrained_success hafter hcause
    rw [afterKill_success hfailure] at hfailure
    exact ⟨_, rest, rfl, hfailure, Or.inl rfl⟩

theorem monitorProcess_success {setup : Setup} {arrivals : List Arrival} {terminal : HostTerminal}
    (h : monitorProcess setup arrivals = some terminal) (hstatus : terminal.status = .succeeded) :
    ∃ exit, monitorLoop setup ⟨false, false⟩ arrivals = some exit ∧
      (terminalFromExit setup.providerId (exit.settled setup)).status = .succeeded := by
  obtain ⟨exit, hloop, hreport⟩ := Option.bind_eq_some_iff.mp h
  refine ⟨exit, hloop, ?_⟩
  dsimp only at hreport
  split at hreport
  · cases hreport
    exact hstatus
  · split at hreport
    · cases hreport
      cases hstatus
    · cases hreport

/-- What the monitor had received when it reported a success. -/
structure Success (stdout : List StdoutRead) (stderr : List StderrRead) (setup : Setup)
    (received : List Arrival) : Prop where
  arrives : Arrives stdout stderr received
  closedBy : Streams.ClosedBy ⟨true, true⟩ received
  plain : ∀ a ∈ received, ∀ cause, a.cause? setup = some cause → cause.isFailure = false
  reported : ∃ a ∈ received, a.reportsSuccess = true
  last : ∀ status, ((noticesOf .stdout received).filterMap (·.terminal?)).getLast? = some status →
    status = .succeeded

variable {stdout : List StdoutRead} {stderr : List StderrRead}

theorem sentBy_eq_some {pipe : Pipe} {a : Arrival} {sent : OutputNotice}
    (h : a.sentBy pipe = some sent) : ∃ journaled, a = .notice pipe sent journaled := by
  cases a with
  | notice source found journaled =>
    simp only [Arrival.sentBy, Option.ite_none_right_eq_some, Option.some.injEq] at h
    obtain ⟨rfl, rfl⟩ := h
    exact ⟨journaled, rfl⟩
  | _ => cases h

theorem exists_of_mem_noticesOf {pipe : Pipe} {arrivals : List Arrival} {sent : OutputNotice}
    (h : sent ∈ noticesOf pipe arrivals) : ∃ journaled, .notice pipe sent journaled ∈ arrivals := by
  obtain ⟨a, ha, hsent⟩ := List.mem_filterMap.mp h
  obtain ⟨journaled, rfl⟩ := sentBy_eq_some hsent
  exact ⟨journaled, ha⟩

theorem terminal?_eq_some {sent : OutputNotice} {status : AgentRunStatus}
    (h : sent.terminal? = some status) : sent = .providerTerminal status := by
  cases sent with
  | providerTerminal found =>
    cases h
    rfl
  | _ => cases h

theorem Arrival.cause?_executor {setup : Setup} {a : Arrival} {result : ExecutorExitResult}
    (h : a.cause? setup = some (.executor result)) : a = .executor (some result) := by
  match a with
  | .executor (some found) =>
    cases h
    rfl
  | .notice pipe sent journaled =>
    rw [Arrival.cause?] at h
    split at h
    · cases h
    next cause hstep =>
      rcases noticeStep_isFailure hstep with hfailure | ⟨status, _, rfl⟩
      · cases h
        cases hfailure
      · cases h
  | .command c =>
    have hfailure := controlCause_isFailure h
    cases hfailure

theorem Arrival.cause?_terminal {setup : Setup} {a : Arrival} {status : AgentRunStatus}
    (h : a.cause? setup = some (.providerTerminal status)) :
    ∃ pipe journaled, a = .notice pipe (.providerTerminal status) journaled := by
  match a with
  | .notice pipe sent journaled =>
    rw [Arrival.cause?] at h
    split at h
    · cases h
    next cause hstep =>
      rcases noticeStep_isFailure hstep with hfailure | ⟨found, rfl, rfl⟩
      · cases h
        cases hfailure
      · cases h
        exact ⟨pipe, journaled, rfl⟩
  | .command c =>
    have hfailure := controlCause_isFailure h
    cases hfailure

theorem terminals_of_passed {setup : Setup} {seen : List Arrival} (pipe : Pipe)
    (h : ∀ a ∈ seen, a.cause? setup = none) : (noticesOf pipe seen).filterMap (·.terminal?) = [] := by
  apply List.filterMap_eq_nil_iff.mpr
  intro sent hsent
  obtain ⟨journaled, hmem⟩ := exists_of_mem_noticesOf hsent
  have hcause := h _ hmem
  cases sent with
  | providerTerminal status => cases hcause
  | _ => rfl

theorem Streams.ClosedBy.start : Streams.ClosedBy ⟨false, false⟩ [] := by
  constructor
  · intro h
    cases h
  · intro h
    cases h

/-- The output behind the end of the loop arrives as it was sent. -/
theorem Arrives.filter_rest {front rest : List Arrival} (h : Arrives stdout stderr (front ++ rest)) :
    Arrives stdout stderr (front ++ rest.filter (·.isOutput)) := by
  constructor
  · rw [noticesOf_append, noticesOf_filter, ← noticesOf_append]
    exact h.stdout
  · rw [noticesOf_append, noticesOf_filter, ← noticesOf_append]
    exact h.stderr
  · intro hmem
    rcases List.mem_append.mp hmem with hmem | hmem
    · exact h.connected (List.mem_append_left _ hmem)
    · exact h.connected (List.mem_append_right _ (List.mem_filter.mp hmem).1)

theorem observed_eq {setup : Setup} {arrivals seen drained rest : List Arrival} {last : Arrival}
    {exit : LoopExit} {result : DrainResult}
    (hloop : monitorLoop setup ⟨false, false⟩ arrivals = some exit)
    (hsplit : arrivals = seen ++ last :: exit.rest)
    (hdrain : drain exit.streams none (exit.rest.filter (·.isOutput)) = (result, rest))
    (houtputs : exit.rest.filter (·.isOutput) = drained ++ rest) :
    observed setup arrivals = seen ++ [last] ++ drained := by
  have htaken : arrivals.take (arrivals.length - exit.rest.length) = seen ++ [last] := by
    have hconcat : arrivals = (seen ++ [last]) ++ exit.rest := by
      rw [hsplit, List.append_assoc]
      rfl
    have hlength : arrivals.length - exit.rest.length = (seen ++ [last]).length := by
      rw [hconcat, List.length_append]
      omega
    rw [hlength, hconcat, List.take_left]
  have hread : (drained ++ rest).take ((drained ++ rest).length - rest.length) = drained := by
    rw [List.length_append, Nat.add_sub_cancel, List.take_left]
  unfold observed
  simp only [hloop, hdrain, htaken]
  rw [houtputs, hread]

theorem observed_success {setup : Setup} {arrivals : List Arrival} {terminal : HostTerminal}
    (harrives : Arrives stdout stderr arrivals) (h : monitorProcess setup arrivals = some terminal)
    (hstatus : terminal.status = .succeeded) :
    Success stdout stderr setup (observed setup arrivals) := by
  obtain ⟨exit, hloop, hsettled⟩ := monitorProcess_success h hstatus
  have hstart : Arrives stdout stderr ([] ++ arrivals) := harrives
  obtain ⟨seen, last, hends⟩ := monitorLoop_spec hstart .start hloop
  obtain ⟨final, rest, hdrain, hcause, hfinal⟩ := settled_success hends.cancelled hsettled
  have houtputs : Arrives stdout stderr (seen ++ [last] ++ exit.rest.filter (·.isOutput)) := by
    apply Arrives.filter_rest
    rw [List.append_assoc, List.singleton_append, ← hends.split]
    exact harrives
  have hclosed : exit.streams.ClosedBy (seen ++ [last]) := hends.closedBy
  obtain ⟨drained, hdrained⟩ :=
    @drain_spec stdout stderr setup _ _ _ _ _ _ houtputs
      (fun a ha => (List.mem_filter.mp ha).2) hclosed hdrain
  have hkept : ((noticesOf .stdout drained).filterMap (·.terminal?)).getLast? = final := by
    rw [hdrained.final, Option.or_none]
  rw [observed_eq hloop hends.split hdrain hdrained.split]
  constructor
  · apply Arrives.of_prefix
    rw [List.append_assoc, ← hdrained.split]
    exact houtputs
  · exact hdrained.closedBy
  · intro a ha cause hfound
    rcases List.mem_append.mp ha with ha | ha
    · rcases List.mem_append.mp ha with ha | ha
      · rw [hends.passed a ha] at hfound
        cases hfound
      · obtain rfl := List.mem_singleton.mp ha
        rw [hends.cause] at hfound
        cases hfound
        exact hcause
    · obtain ⟨status, rfl⟩ := hdrained.plain a ha cause hfound
      rfl
  · rcases hfinal with rfl | ⟨rfl, hsuccess⟩
    · have hmem := List.mem_of_getLast? hkept
      obtain ⟨sent, hsent, hterminal⟩ := List.mem_filterMap.mp hmem
      obtain rfl := terminal?_eq_some hterminal
      obtain ⟨journaled, hnotice⟩ := exists_of_mem_noticesOf hsent
      exact ⟨_, List.mem_append_right _ hnotice, rfl⟩
    · have hmem : last ∈ seen ++ [last] ++ drained :=
        List.mem_append_left _ (List.mem_append_right _ List.mem_cons_self)
      rcases hsuccess with hsuccess | hsuccess
      · obtain rfl := Arrival.cause?_executor (hends.cause.trans (congrArg some hsuccess))
        exact ⟨_, hmem, rfl⟩
      · obtain ⟨pipe, journaled, rfl⟩ :=
          Arrival.cause?_terminal (hends.cause.trans (congrArg some hsuccess))
        exact ⟨_, hmem, rfl⟩
  · intro status hlast
    rw [noticesOf_append, List.filterMap_append, List.getLast?_append, hkept] at hlast
    rcases hfinal with rfl | ⟨rfl, hsuccess⟩
    · cases hlast
      rfl
    · rw [Option.none_or, noticesOf_append, List.filterMap_append,
        terminals_of_passed .stdout hends.passed, List.nil_append] at hlast
      have hmem := List.mem_of_getLast? hlast
      obtain ⟨sent, hsent, hterminal⟩ := List.mem_filterMap.mp hmem
      obtain rfl := terminal?_eq_some hterminal
      obtain ⟨journaled, hnotice⟩ := exists_of_mem_noticesOf hsent
      obtain rfl := List.mem_singleton.mp hnotice
      have hcause := hends.cause
      rcases hsuccess with hsuccess | hsuccess
      · rw [hsuccess] at hcause
        cases hcause
      · rw [hsuccess] at hcause
        cases hcause
        rfl

theorem Success.plain_notice {setup : Setup} {received : List Arrival} {pipe : Pipe}
    {sent : OutputNotice} {journaled : Except String Unit}
    (h : Success stdout stderr setup received) (hmem : .notice pipe sent journaled ∈ received) :
    sent.isFailure = false := by
  cases sent with
  | auditFailure error => cases h.plain _ hmem _ rfl
  | protocolFailure error => cases h.plain _ hmem _ rfl
  | _ => rfl

/-- Behind a success both streams have been read to their end without a failure. -/
theorem Success.complete {setup : Setup} {received : List Arrival}
    (h : Success stdout stderr setup received) :
    (∀ read ∈ stdout, read.fails = false) ∧ (∀ read ∈ stderr, read.fails = false) ∧
      noticesOf .stdout received = stdoutNotices stdout ∧
      (stdoutNotices stdout).filterMap (·.terminal?) = providerTerminals stdout := by
  have hout := h.arrives.stdout_complete (h.closedBy.1 rfl)
  have herr := h.arrives.stderr_complete (h.closedBy.2 rfl)
  have houtPlain : ∀ sent ∈ stdoutNotices stdout, sent.isFailure = false := by
    intro sent hsent
    rw [← hout] at hsent
    obtain ⟨journaled, hmem⟩ := exists_of_mem_noticesOf hsent
    exact h.plain_notice hmem
  have herrPlain : ∀ sent ∈ stderrNotices stderr, sent.isFailure = false := by
    intro sent hsent
    rw [← herr] at hsent
    obtain ⟨journaled, hmem⟩ := exists_of_mem_noticesOf hsent
    exact h.plain_notice hmem
  have hreads := stdoutNotices_plain houtPlain
  obtain ⟨front, hfront, _, hterminals⟩ := stdoutNotices_of_plain hreads
  refine ⟨hreads, stderrNotices_plain herrPlain, hout, ?_⟩
  rw [hfront, List.filterMap_append, hterminals]
  exact List.append_nil _

/-- A read fails, or the output's last terminal is no success, or all its terminals are. -/
def Consistent (stdout : List StdoutRead) (stderr : List StderrRead) : Prop :=
  (∃ read ∈ stdout, read.fails = true) ∨ (∃ read ∈ stderr, read.fails = true) ∨
    (providerTerminals stdout).getLast? ≠ some .succeeded ∨
    ∀ status ∈ providerTerminals stdout, status = .succeeded

theorem Success.terminals {setup : Setup} {received : List Arrival}
    (h : Success stdout stderr setup received) (hconsistent : Consistent stdout stderr) :
    ∀ status ∈ providerTerminals stdout, status = .succeeded := by
  obtain ⟨hout, herr, hreceived, hterminals⟩ := h.complete
  rcases hconsistent with ⟨read, hread, hfails⟩ | ⟨read, hread, hfails⟩ | hlast | hall
  · rw [hout read hread] at hfails
    cases hfails
  · rw [herr read hread] at hfails
    cases hfails
  · have hends := h.last
    rw [hreceived, hterminals] at hends
    cases hfound : (providerTerminals stdout).getLast? with
    | none =>
      rw [List.getLast?_eq_none_iff.mp hfound]
      nofun
    | some status =>
      obtain rfl := hends status hfound
      exact absurd hfound hlast
  · exact hall

theorem Success.unrefuted {setup : Setup} {received : List Arrival}
    (h : Success stdout stderr setup received)
    (hall : ∀ status ∈ providerTerminals stdout, status = .succeeded) :
    ∀ a ∈ received, a.refutesSuccess setup = false := by
  obtain ⟨_, _, hreceived, hterminals⟩ := h.complete
  have hsent {status : AgentRunStatus} (hmem : .providerTerminal status ∈ stdoutNotices stdout) :
      status = .succeeded := by
    apply hall
    rw [← hterminals]
    exact List.mem_filterMap.mpr ⟨_, hmem, rfl⟩
  intro a ha
  match a with
  | .notice .stdout (.mapped event) (.ok _) =>
    have hmem := h.arrives.mem_stdout ha
    cases hstatus : terminalStatus event with
    | none => simp [Arrival.refutesSuccess, hstatus]
    | some status =>
      obtain rfl := hsent (stdoutNotices_mapped hmem hstatus)
      simp [Arrival.refutesSuccess, hstatus]
  | .notice .stderr (.mapped event) (.ok _) =>
    rcases (h.arrives.mem_stderr ha).2 with hfailure | hclosing
    · cases hfailure
    · cases hclosing
  | .notice _ (.mapped event) (.error error) => cases h.plain _ ha _ rfl
  | .notice pipe (.providerTerminal status) journaled =>
    obtain rfl := h.arrives.terminal_pipe ha
    obtain rfl := hsent (h.arrives.mem_stdout ha)
    rfl
  | .notice _ (.auditFailure error) _ => cases h.plain _ ha _ rfl
  | .notice _ (.protocolFailure error) _ => cases h.plain _ ha _ rfl
  | .notice _ .stdoutClosed _ => rfl
  | .notice _ .stderrClosed _ => rfl
  | .command c =>
    cases hcause : controlCause setup c with
    | none => simp [Arrival.refutesSuccess, hcause]
    | some cause =>
      have hfailure := controlCause_isFailure hcause
      rw [h.plain _ ha cause hcause] at hfailure
      cases hfailure
  | .exited _ => rfl
  | .executor _ => rfl
  | .hangUp => rfl

theorem sound_of_consistent {setup : Setup} {arrivals : List Arrival}
    (hconsistent : Consistent stdout stderr) (harrives : Arrives stdout stderr arrivals) :
    Sound stdout setup arrivals := by
  intro terminal hterminal hstatus
  have hsuccess := observed_success harrives hterminal hstatus
  have hall := hsuccess.terminals hconsistent
  exact ⟨hsuccess.reported, hsuccess.unrefuted hall, hall⟩

end Success

section Converse

/-- Notices of a reader, all journaled. -/
def sendAll (pipe : Pipe) (notices : List OutputNotice) : List Arrival :=
  notices.map fun sent => .notice pipe sent (.ok ())

def Setup.allOk : Setup := ⟨"codex", false, false, .ok (), .ok (), .ok ()⟩

theorem stderrNotices_of_plain {reads : List StderrRead} (h : ∀ read ∈ reads, read.fails = false) :
    stderrNotices reads = [.stderrClosed] := by
  induction reads with
  | nil => rfl
  | cons read rest ih =>
    match read with
    | .failed error => cases h _ List.mem_cons_self
    | .frame (.error error) => cases h _ List.mem_cons_self
    | .frame (.ok _) => exact ih fun read hread => h read (List.mem_cons_of_mem _ hread)

theorem monitorLoop_sendAll {front : List OutputNotice} {status : AgentRunStatus}
    {later : List AgentRunStatus} (more : List Arrival) (hplain : ∀ sent ∈ front, sent.Plain)
    (hterminals : front.filterMap (·.terminal?) = status :: later) :
    ∃ rest, (∀ sent ∈ rest, sent.Plain) ∧ rest.filterMap (·.terminal?) = later ∧
      monitorLoop .allOk ⟨false, false⟩ (sendAll .stdout front ++ more) =
        some ⟨.providerTerminal status, false, ⟨false, false⟩, sendAll .stdout rest ++ more⟩ := by
  induction front with
  | nil => cases hterminals
  | cons sent front ih =>
    have htail : ∀ sent ∈ front, sent.Plain := fun s hs => hplain s (List.mem_cons_of_mem _ hs)
    cases sent with
    | mapped event =>
      obtain ⟨rest, hrest, hlater, hloop⟩ := ih htail hterminals
      exact ⟨rest, hrest, hlater, hloop⟩
    | providerTerminal reported =>
      simp only [List.filterMap_cons, OutputNotice.terminal?, List.cons.injEq] at hterminals
      obtain ⟨rfl, hlater⟩ := hterminals
      exact ⟨front, htail, hlater, rfl⟩
    | stdoutClosed => cases (hplain _ List.mem_cons_self).1
    | stderrClosed => cases (hplain _ List.mem_cons_self).1
    | auditFailure error => cases (hplain _ List.mem_cons_self).2
    | protocolFailure error => cases (hplain _ List.mem_cons_self).2

theorem drain_sendAll {front : List OutputNotice} (terminal : Option AgentRunStatus)
    (more : List Arrival) (hplain : ∀ sent ∈ front, sent.Plain) :
    drain ⟨false, false⟩ terminal (sendAll .stdout front ++ more) =
      drain ⟨false, false⟩ ((front.filterMap (·.terminal?)).getLast?.or terminal) more := by
  induction front generalizing terminal with
  | nil => rfl
  | cons sent front ih =>
    have htail : ∀ sent ∈ front, sent.Plain := fun s hs => hplain s (List.mem_cons_of_mem _ hs)
    cases sent with
    | mapped event => exact ih terminal htail
    | providerTerminal reported =>
      have hkept : ((.providerTerminal reported :: front).filterMap (·.terminal?)).getLast?.or terminal =
          (front.filterMap (·.terminal?)).getLast?.or (some reported) := by
        change (reported :: front.filterMap (·.terminal?)).getLast?.or terminal = _
        rw [List.getLast?_cons]
        cases (front.filterMap (·.terminal?)).getLast? <;> rfl
      rw [hkept]
      exact ih (some reported) htail
    | stdoutClosed => cases (hplain _ List.mem_cons_self).1
    | stderrClosed => cases (hplain _ List.mem_cons_self).1
    | auditFailure error => cases (hplain _ List.mem_cons_self).2
    | protocolFailure error => cases (hplain _ List.mem_cons_self).2

theorem sendAll_output (pipe : Pipe) (notices : List OutputNotice) :
    (sendAll pipe notices).filter (·.isOutput) = sendAll pipe notices := by
  apply List.filter_eq_self.mpr
  intro a ha
  obtain ⟨sent, _, rfl⟩ := List.mem_map.mp ha
  rfl

theorem noticesOf_sendAll (pipe : Pipe) (notices : List OutputNotice) :
    noticesOf pipe (sendAll pipe notices) = notices := by
  rw [noticesOf, sendAll, List.filterMap_map]
  simp [Function.comp_def, Arrival.sentBy]

theorem noticesOf_sendAll_ne {pipe other : Pipe} (h : other ≠ pipe) (notices : List OutputNotice) :
    noticesOf pipe (sendAll other notices) = [] := by
  rw [noticesOf, sendAll, List.filterMap_map]
  simp [Function.comp_def, Arrival.sentBy, h]

/-- The output is read in one go: first standard output, then standard error. -/
def inOneGo (stdout : List StdoutRead) (stderr : List StderrRead) : List Arrival :=
  sendAll .stdout (stdoutNotices stdout) ++ sendAll .stderr (stderrNotices stderr)

theorem inOneGo_arrives (stdout : List StdoutRead) (stderr : List StderrRead) :
    Arrives stdout stderr (inOneGo stdout stderr) := by
  constructor
  · rw [inOneGo, noticesOf_append, noticesOf_sendAll, noticesOf_sendAll_ne (by decide)]
    rw [List.append_nil]
  · rw [inOneGo, noticesOf_append, noticesOf_sendAll, noticesOf_sendAll_ne (by decide)]
    rw [List.nil_append]
  · simp [inOneGo, sendAll]

/-- Read in one go, two terminals with a success at the end are reported as a success. -/
theorem monitorProcess_inOneGo {stdout : List StdoutRead} {stderr : List StderrRead}
    {first : AgentRunStatus} {later : List AgentRunStatus}
    (hout : ∀ read ∈ stdout, read.fails = false) (herr : ∀ read ∈ stderr, read.fails = false)
    (hterminals : providerTerminals stdout = first :: later)
    (hlast : later.getLast? = some .succeeded) :
    monitorProcess .allOk (inOneGo stdout stderr) = some ⟨.succeeded, none, some 0⟩ := by
  obtain ⟨front, hfront, hplain, hsame⟩ := stdoutNotices_of_plain hout
  have harrivals : inOneGo stdout stderr =
      sendAll .stdout front ++ [.notice .stdout .stdoutClosed (.ok ()),
        .notice .stderr .stderrClosed (.ok ())] := by
    rw [inOneGo, hfront, stderrNotices_of_plain herr]
    simp [sendAll]
  obtain ⟨rest, hrest, hlater, hloop⟩ := monitorLoop_sendAll
    [.notice .stdout .stdoutClosed (.ok ()), .notice .stderr .stderrClosed (.ok ())] hplain
    (hsame.trans hterminals)
  have hdrain := drain_sendAll none
    [.notice .stdout .stdoutClosed (.ok ()), .notice .stderr .stderrClosed (.ok ())] hrest
  rw [hlater, hlast] at hdrain
  have hsettled : LoopExit.settled .allOk ⟨.providerTerminal first, false, ⟨false, false⟩,
      sendAll .stdout rest ++ [.notice .stdout .stdoutClosed (.ok ()),
        .notice .stderr .stderrClosed (.ok ())]⟩ = .providerTerminal .succeeded := by
    rw [LoopExit.settled, List.filter_append, sendAll_output]
    change (match (drain ⟨false, false⟩ none (sendAll .stdout rest ++ [
      .notice .stdout .stdoutClosed (.ok ()), .notice .stderr .stderrClosed (.ok ())])).1 with
      | .failed cause => cause
      | .closed none => _
      | .closed (some status) => preferDrainedProviderTerminal (.providerTerminal first) status false
      | .deadline => _) = _
    rw [hdrain]
    rfl
  rw [harrivals, monitorProcess, hloop, Option.bind_some]
  simp only [hsettled]
  rfl

end Converse

/-- Success is sound in every order of arrival exactly for a consistent output. -/
theorem monitorProcess_sound_iff (stdout : List StdoutRead) (stderr : List StderrRead) :
    (∀ setup arrivals, Arrives stdout stderr arrivals → Sound stdout setup arrivals) ↔
      Consistent stdout stderr := by
  constructor
  · intro hsound
    by_contra hinconsistent
    unfold Consistent at hinconsistent
    push Not at hinconsistent
    obtain ⟨hout, herr, hlast, status, hstatus, hfailed⟩ := hinconsistent
    have houtPlain : ∀ read ∈ stdout, read.fails = false := fun read hread => by
      simpa using hout read hread
    have herrPlain : ∀ read ∈ stderr, read.fails = false := fun read hread => by
      simpa using herr read hread
    obtain ⟨first, later, hterminals⟩ := List.exists_cons_of_ne_nil (List.ne_nil_of_mem hstatus)
    have hlater : later.getLast? = some .succeeded := by
      rw [hterminals] at hlast hstatus
      cases later with
      | nil =>
        cases hlast
        exact absurd (List.mem_singleton.mp hstatus) hfailed
      | cons second later =>
        rwa [List.getLast?_cons_cons] at hlast
    have hreport := monitorProcess_inOneGo houtPlain herrPlain hterminals hlater
    have hall := (hsound .allOk _ (inOneGo_arrives stdout stderr) _ hreport rfl).2.2
    exact hfailed (hall status hstatus)
  · intro hconsistent setup arrivals harrives
    exact sound_of_consistent hconsistent harrives

/-- An Error, then a lifecycle event that reports success. -/
def errorThenSuccess : List StdoutRead :=
  [.frame (.ok ()) (.ok [.error ⟨.unknown, "503", none, none, none⟩]),
    .frame (.ok ()) (.ok [.lifecycleChanged .succeeded])]

theorem monitorProcess_error_then_success :
    Arrives errorThenSuccess [] (inOneGo errorThenSuccess []) ∧
      .failed ∈ providerTerminals errorThenSuccess ∧
      monitorProcess .allOk (inOneGo errorThenSuccess []) = some ⟨.succeeded, none, some 0⟩ ∧
      ¬ Sound errorThenSuccess .allOk (inOneGo errorThenSuccess []) := by
  have hterminals : providerTerminals errorThenSuccess = [.failed, .succeeded] := rfl
  have hfailed : .failed ∈ providerTerminals errorThenSuccess := by
    rw [hterminals]
    exact List.mem_cons_self
  have hplain : ∀ read ∈ errorThenSuccess, read.fails = false := by
    simp [errorThenSuccess, StdoutRead.fails]
  have hreport : monitorProcess .allOk (inOneGo errorThenSuccess []) =
      some ⟨.succeeded, none, some 0⟩ :=
    monitorProcess_inOneGo hplain nofun hterminals rfl
  refine ⟨inOneGo_arrives _ _, hfailed, hreport, ?_⟩
  intro hsound
  have hall := (hsound _ hreport rfl).2.2
  cases hall .failed hfailed

end VibeKanban.Host
