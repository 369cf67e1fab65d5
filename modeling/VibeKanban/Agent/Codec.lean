import VibeKanban.Agent.Event
import VibeKanban.Lib.Serde

/-! The JSON form of the payload of an agent event and the upcaster that reads it. -/
namespace VibeKanban.Agent
open Lib
open VibeKanban.Runtime (AgentRunStatus)

inductive ContractDecodeError where
  | missingUpcaster (contract : String) (provided current : UInt16)
  | malformedCurrentPayload
  deriving DecidableEq, Repr

/-- The `type` of a payload, `"unknown"` when it has none. -/
def payloadType (payload : Json) : String := ((payload.get? "type").bind Json.asStr?).getD "unknown"

/-- Older payloads have no upcaster; newer ones and those of an unknown type are kept as they
are. -/
def upcastPayload {P : Type} (contract : String) (current : UInt16) (knownTypes : List String)
    (unknown : String → Json → P) (fromValue : Json → Option P) (payloadVersion : UInt16)
    (payload : Json) : Except ContractDecodeError P :=
  if payloadVersion < current then .error (.missingUpcaster contract payloadVersion current)
  else if payloadVersion > current then .ok (unknown (payloadType payload) payload)
  else
    let eventType := payloadType payload
    if !knownTypes.contains eventType then .ok (unknown eventType payload)
    else match fromValue payload with
      | some value => .ok value
      | none => .error .malformedCurrentPayload

/-- The `type` and `data` of a payload. -/
def tagged (eventType : String) (data : List (String × Option Json)) : Json :=
  record [("type", some (.str eventType)), ("data", some (record data))]

/-- Read the data of a payload by its type. -/
def readTagged {P : Type} (fromData : String → Json → Option P) (j : Json) : Option P :=
  readRecord j ["type", "data"] fun
    | [some tag, some data] => (Codec.tag? tag).bind fun eventType => fromData eventType data
    | _ => none

/-- How identities and times are written. -/
structure Texts where
  uuid : Codec ℕ
  time : Codec ℕ

section Names

def agentRunStatus : Codec AgentRunStatus :=
  Codec.enumeration [.pending, .starting, .running, .awaitingInput, .awaitingApproval, .cancelling,
    .succeeded, .failed, .cancelled, .crashed, .auditFailed]
    (fun
      | .pending => "pending" | .starting => "starting" | .running => "running"
      | .awaitingInput => "awaiting_input" | .awaitingApproval => "awaiting_approval"
      | .cancelling => "cancelling" | .succeeded => "succeeded" | .failed => "failed"
      | .cancelled => "cancelled" | .crashed => "crashed" | .auditFailed => "audit_failed")
    (by intro a; cases a <;> rfl)

def messageRole : Codec AgentRuntimeMessageRole :=
  Codec.enumeration [.user, .assistant, .system]
    (fun
      | .user => "user" | .assistant => "assistant" | .system => "system")
    (by intro a; cases a <;> rfl)

def toolStatus : Codec AgentRuntimeToolStatus :=
  Codec.enumeration [.created, .running, .waitingApproval, .approved, .denied, .succeeded, .failed,
    .timedOut]
    (fun
      | .created => "created" | .running => "running" | .waitingApproval => "waiting_approval"
      | .approved => "approved" | .denied => "denied" | .succeeded => "succeeded"
      | .failed => "failed" | .timedOut => "timed_out")
    (by intro a; cases a <;> rfl)

def fileChangeType : Codec AgentFileChangeType :=
  Codec.enumeration [.added, .modified, .deleted]
    (fun
      | .added => "added" | .modified => "modified" | .deleted => "deleted")
    (by intro a; cases a <;> rfl)

def errorKind : Codec AgentRuntimeErrorKind :=
  Codec.enumeration [.executableNotFound, .commandBuildFailed, .authRequired, .startupFailed,
    .protocolFailed, .processCrashed, .outputParseFailed, .approvalCancelled, .approvalTimedOut,
    .cancelled, .unknown]
    (fun
      | .executableNotFound => "executable_not_found"
      | .commandBuildFailed => "command_build_failed" | .authRequired => "auth_required"
      | .startupFailed => "startup_failed" | .protocolFailed => "protocol_failed"
      | .processCrashed => "process_crashed" | .outputParseFailed => "output_parse_failed"
      | .approvalCancelled => "approval_cancelled" | .approvalTimedOut => "approval_timed_out"
      | .cancelled => "cancelled" | .unknown => "unknown")
    (by intro a; cases a <;> rfl)

def launchPhase : Codec AgentRuntimeLaunchPhase :=
  Codec.enumeration [.commandBuild, .processSpawn, .protocolConnect, .warmup, .sessionResume,
    .accepted]
    (fun
      | .commandBuild => "command_build" | .processSpawn => "process_spawn"
      | .protocolConnect => "protocol_connect" | .warmup => "warmup"
      | .sessionResume => "session_resume" | .accepted => "accepted")
    (by intro a; cases a <;> rfl)

end Names

section Records

@[simp] theorem optional_string (a : Option String) :
    optional .string (a.map Codec.string.encode) = some a := optional_nonNull Codec.string_nonNull a

@[simp] theorem optional_uint64 (a : Option UInt64) :
    optional .uint64 (a.map Codec.uint64.encode) = some a := optional_nonNull Codec.integer_nonNull a

@[simp] theorem optional_int32 (a : Option Int32) :
    optional .int32 (a.map Codec.int32.encode) = some a := optional_nonNull Codec.integer_nonNull a

@[simp] theorem optional_launchPhase (a : Option AgentRuntimeLaunchPhase) :
    optional launchPhase (a.map launchPhase.encode) = some a :=
  optional_nonNull Codec.enumeration_nonNull a

/-- An optional JSON value reads back unless it is `null`. -/
theorem optional_value {a : Option Json} (h : a ≠ some .null) :
    optional .value (a.map Codec.value.encode) = some a :=
  optional_encode fun _ hv hnull => h (hv.trans (congrArg some hnull))

def fileChange : Codec (String × AgentFileChangeType) where
  encode change := record [("path", some (Codec.string.encode change.1)),
    ("change_type", some (fileChangeType.encode change.2))]
  decode j := readRecord j ["path", "change_type"] fun
    | [path, changeType] => do
      return (← required .string path, ← required fileChangeType changeType)
    | _ => none
  decode_encode change := (readRecord_record (by simp)).trans (by simp)

def canonicalMessage (texts : Texts) : Codec CanonicalMessage where
  encode message := record [("message_id", some (texts.uuid.encode message.messageId)),
    ("role", some (messageRole.encode message.role)),
    ("content", some (Codec.string.encode message.content))]
  decode j := readRecord j ["message_id", "role", "content"] fun
    | [messageId, role, content] => do
      return ⟨← required texts.uuid messageId, ← required messageRole role,
        ← required .string content⟩
    | _ => none
  decode_encode message := (readRecord_record (by simp)).trans (by simp)

def agentRuntimeError : Codec AgentRuntimeError where
  encode error := record [("kind", some (errorKind.encode error.kind)),
    ("message", some (Codec.string.encode error.message)),
    ("provider", error.provider.map Codec.string.encode),
    ("launch_phase", error.launchPhase.map launchPhase.encode),
    ("exit_code", error.exitCode.map Codec.int32.encode)]
  decode j := readRecord j ["kind", "message", "provider", "launch_phase", "exit_code"] fun
    | [kind, message, provider, phase, exitCode] => do
      return ⟨← required errorKind kind, ← required .string message, ← optional .string provider,
        ← optional launchPhase phase, ← optional .int32 exitCode⟩
    | _ => none
  decode_encode error := (readRecord_record (by simp)).trans (by simp)

def ProviderSessionReference.toValue (texts : Texts) (session : ProviderSessionReference) : Json :=
  record [("schema_version", some (Codec.uint16.encode session.schemaVersion)),
    ("provider_id", some (Codec.string.encode session.providerId)),
    ("runtime_profile_id", some (Codec.string.encode session.runtimeProfileId)),
    ("provider_session_id", some (Codec.string.encode session.providerSessionId)),
    ("observed_at", some (texts.time.encode session.observedAt)),
    ("metadata", session.metadata.map Codec.value.encode)]

def ProviderSessionReference.fromValue (texts : Texts) (j : Json) :
    Option ProviderSessionReference :=
  readRecord j ["schema_version", "provider_id", "runtime_profile_id", "provider_session_id",
    "observed_at", "metadata"] fun
    | [schemaVersion, providerId, runtimeProfileId, providerSessionId, observedAt, metadata] => do
      return ⟨← required .uint16 schemaVersion, ← required .string providerId,
        ← required .string runtimeProfileId, ← required .string providerSessionId,
        ← required texts.time observedAt, ← optional .value metadata⟩
    | _ => none

theorem ProviderSessionReference.fromValue_toValue (texts : Texts)
    {session : ProviderSessionReference} (h : session.metadata ≠ some .null) :
    fromValue texts (session.toValue texts) = some session :=
  (readRecord_record (by simp)).trans (by simp [optional_value h])

end Records

namespace AgentEventPayload

def typeName : AgentEventPayload → String
  | lifecycleChanged .. => "lifecycle_changed"
  | sessionObserved .. => "session_observed"
  | message .. => "message"
  | thinking .. => "thinking"
  | fileChanges .. => "file_changes"
  | toolCall .. => "tool_call"
  | approvalRequested .. => "approval_requested"
  | approvalResolved .. => "approval_resolved"
  | inputRequested .. => "input_requested"
  | inputResolved .. => "input_resolved"
  | tokenUsage .. => "token_usage"
  | error .. => "error"
  | projectionDegraded .. => "projection_degraded"
  | providerExtension .. => "provider_extension"
  | unknown .. => "unknown"

def data (texts : Texts) : AgentEventPayload → List (String × Option Json)
  | lifecycleChanged status => [("status", some (agentRunStatus.encode status))]
  | sessionObserved session => [("provider_session", some (session.toValue texts))]
  | message body finalOutput =>
    [("message", some ((canonicalMessage texts).encode body)),
      ("final_output", some (Codec.bool.encode finalOutput))]
  | thinking content => [("content", some (Codec.string.encode content))]
  | fileChanges toolCallId changes =>
    [("tool_call_id", some (Codec.string.encode toolCallId)),
      ("changes", some (fileChange.list.encode changes))]
  | toolCall toolCallId toolName status arguments result =>
    [("tool_call_id", toolCallId.map Codec.string.encode),
      ("tool_name", some (Codec.string.encode toolName)),
      ("status", some (toolStatus.encode status)),
      ("arguments", arguments.map Codec.value.encode), ("result", result.map Codec.value.encode)]
  | approvalRequested approvalId toolCallId toolName =>
    [("approval_id", some (Codec.string.encode approvalId)),
      ("tool_call_id", toolCallId.map Codec.string.encode),
      ("tool_name", some (Codec.string.encode toolName))]
  | approvalResolved approvalId approved reason =>
    [("approval_id", some (Codec.string.encode approvalId)),
      ("approved", some (Codec.bool.encode approved)), ("reason", reason.map Codec.string.encode)]
  | inputRequested inputId prompt =>
    [("input_id", some (Codec.string.encode inputId)), ("prompt", some (Codec.string.encode prompt))]
  | inputResolved inputId answered =>
    [("input_id", some (Codec.string.encode inputId)),
      ("answered", some (Codec.bool.encode answered))]
  | tokenUsage inputTokens outputTokens cachedInputTokens =>
    [("input_tokens", some (Codec.uint64.encode inputTokens)),
      ("output_tokens", some (Codec.uint64.encode outputTokens)),
      ("cached_input_tokens", cachedInputTokens.map Codec.uint64.encode)]
  | error failure => [("error", some (agentRuntimeError.encode failure))]
  | projectionDegraded reason => [("reason", some (Codec.string.encode reason))]
  | providerExtension providerNamespace providerEvent payload =>
    [("provider_namespace", some (Codec.string.encode providerNamespace)),
      ("provider_event", some (Codec.string.encode providerEvent)),
      ("payload", some (Codec.value.encode payload))]
  | unknown eventType payload =>
    [("event_type", some (Codec.string.encode eventType)),
      ("payload", some (Codec.value.encode payload))]

def toValue (texts : Texts) (payload : AgentEventPayload) : Json :=
  tagged payload.typeName (payload.data texts)

/-- The payload of a type from its data. -/
def fromData (texts : Texts) (eventType : String) (data : Json) : Option AgentEventPayload :=
  match eventType with
  | "lifecycle_changed" => readRecord data ["status"] fun
    | [status] => return lifecycleChanged (← required agentRunStatus status)
    | _ => none
  | "session_observed" => readRecord data ["provider_session"] fun
    | [session] => return sessionObserved (← session.bind (ProviderSessionReference.fromValue texts))
    | _ => none
  | "message" => readRecord data ["message", "final_output"] fun
    | [body, finalOutput] =>
      return message (← required (canonicalMessage texts) body) (← required .bool finalOutput)
    | _ => none
  | "thinking" => readRecord data ["content"] fun
    | [content] => return thinking (← required .string content)
    | _ => none
  | "file_changes" => readRecord data ["tool_call_id", "changes"] fun
    | [toolCallId, changes] =>
      return fileChanges (← required .string toolCallId) (← required fileChange.list changes)
    | _ => none
  | "tool_call" => readRecord data ["tool_call_id", "tool_name", "status", "arguments", "result"] fun
    | [toolCallId, toolName, status, arguments, result] =>
      return toolCall (← optional .string toolCallId) (← required .string toolName)
        (← required toolStatus status) (← optional .value arguments) (← optional .value result)
    | _ => none
  | "approval_requested" => readRecord data ["approval_id", "tool_call_id", "tool_name"] fun
    | [approvalId, toolCallId, toolName] =>
      return approvalRequested (← required .string approvalId) (← optional .string toolCallId)
        (← required .string toolName)
    | _ => none
  | "approval_resolved" => readRecord data ["approval_id", "approved", "reason"] fun
    | [approvalId, approved, reason] =>
      return approvalResolved (← required .string approvalId) (← required .bool approved)
        (← optional .string reason)
    | _ => none
  | "input_requested" => readRecord data ["input_id", "prompt"] fun
    | [inputId, prompt] => return inputRequested (← required .string inputId) (← required .string prompt)
    | _ => none
  | "input_resolved" => readRecord data ["input_id", "answered"] fun
    | [inputId, answered] =>
      return inputResolved (← required .string inputId) (← required .bool answered)
    | _ => none
  | "token_usage" => readRecord data ["input_tokens", "output_tokens", "cached_input_tokens"] fun
    | [inputTokens, outputTokens, cachedInputTokens] =>
      return tokenUsage (← required .uint64 inputTokens) (← required .uint64 outputTokens)
        (← optional .uint64 cachedInputTokens)
    | _ => none
  | "error" => readRecord data ["error"] fun
    | [failure] => return error (← required agentRuntimeError failure)
    | _ => none
  | "projection_degraded" => readRecord data ["reason"] fun
    | [reason] => return projectionDegraded (← required .string reason)
    | _ => none
  | "provider_extension" =>
    readRecord data ["provider_namespace", "provider_event", "payload"] fun
    | [providerNamespace, providerEvent, payload] =>
      return providerExtension (← required .string providerNamespace)
        (← required .string providerEvent) (← required .value payload)
    | _ => none
  | "unknown" => readRecord data ["event_type", "payload"] fun
    | [eventType, payload] =>
      return unknown (← required .string eventType) (← required .value payload)
    | _ => none
  | _ => none

def fromValue (texts : Texts) (j : Json) : Option AgentEventPayload :=
  readTagged (fromData texts) j

def knownTypes : List String :=
  ["lifecycle_changed", "session_observed", "message", "thinking", "file_changes", "tool_call",
    "approval_requested", "approval_resolved", "input_requested", "input_resolved", "token_usage",
    "error", "projection_degraded", "provider_extension", "unknown"]

def payloadVersion : UInt16 := 1

def upcast (texts : Texts) (version : UInt16) (payload : Json) :
    Except ContractDecodeError AgentEventPayload :=
  upcastPayload "agent_event.payload" payloadVersion knownTypes unknown (fromValue texts) version
    payload

/-- No optional JSON value of the payload is present and `null`. -/
def Plain : AgentEventPayload → Prop
  | sessionObserved session => session.metadata ≠ some .null
  | toolCall _ _ _ arguments result => arguments ≠ some .null ∧ result ≠ some .null
  | _ => True

theorem data_nodup (texts : Texts) (payload : AgentEventPayload) :
    ((payload.data texts).map Prod.fst).Nodup := by
  cases payload <;> simp [data]

theorem fromData_data (texts : Texts) {payload : AgentEventPayload} (h : payload.Plain) :
    fromData texts payload.typeName (record (payload.data texts)) = some payload := by
  cases payload with
  | sessionObserved session =>
    refine (readRecord_record (data_nodup texts _)).trans ?_
    simp [data, ProviderSessionReference.fromValue_toValue texts h]
  | toolCall toolCallId toolName status arguments result =>
    refine (readRecord_record (data_nodup texts _)).trans ?_
    simp [data, optional_value h.1, optional_value h.2]
  | _ => exact (readRecord_record (data_nodup texts _)).trans (by simp [data])

theorem typeName_known (payload : AgentEventPayload) : payload.typeName ∈ knownTypes := by
  cases payload <;> simp [typeName, knownTypes]

end AgentEventPayload

section Upcast
variable {P : Type} {contract : String} {current : UInt16} {known : List String}
  {unknown : String → Json → P} {fromValue : Json → Option P}

theorem payloadType_tagged (eventType : String) (data : List (String × Option Json)) :
    payloadType (tagged eventType data) = eventType := by
  simp [payloadType, tagged, record, present, Json.get?, Json.asStr?]

theorem readTagged_tagged {fromData : String → Json → Option P} {eventType : String}
    {data : List (String × Option Json)} :
    readTagged fromData (tagged eventType data) = fromData eventType (record data) :=
  (readRecord_record (by simp)).trans (by simp [Codec.tag?])

theorem upcastPayload_current {eventType : String} {data : List (String × Option Json)} {value : P}
    (hknown : eventType ∈ known) (hvalue : fromValue (tagged eventType data) = some value) :
    upcastPayload contract current known unknown fromValue current (tagged eventType data) =
      .ok value := by
  unfold upcastPayload
  simp [payloadType_tagged, hknown, hvalue]

/-- What the upcaster does not know it keeps. -/
theorem upcastPayload_unknown {version : UInt16} {payload : Json}
    (h : current < version ∨ version = current ∧ payloadType payload ∉ known) :
    upcastPayload contract current known unknown fromValue version payload =
      .ok (unknown (payloadType payload) payload) := by
  unfold upcastPayload
  rcases h with hnewer | ⟨rfl, hunknown⟩
  · rw [if_neg (UInt16.lt_asymm hnewer), if_pos hnewer]
  · simp [hunknown]

theorem upcastPayload_older {version : UInt16} {payload : Json} (h : version < current) :
    upcastPayload contract current known unknown fromValue version payload =
      .error (.missingUpcaster contract version current) := by
  unfold upcastPayload
  rw [if_pos h]

/-- A payload without a type counts as one of the type `unknown`, which its reader refuses. -/
theorem upcastPayload_typeless {fromData : String → Json → Option P} {payload : Json}
    (hknown : "unknown" ∈ known) (harray : ∀ items, payload ≠ .arr items)
    (htype : (payload.get? "type").bind Codec.tag? = none) :
    upcastPayload contract current known unknown (readTagged fromData) current payload =
      .error .malformedCurrentPayload := by
  have hread : readTagged fromData payload = none := by
    cases payload with
    | arr items => exact absurd rfl (harray items)
    | obj fields =>
      have htag : (fields.lookup "type").bind Codec.tag? = none := htype
      cases hlookup : fields.lookup "type" with
      | none => simp [readTagged, readRecord, members, hlookup]
      | some tag =>
        rw [hlookup, Option.bind_some] at htag
        cases hdata : fields.lookup "data" with
        | none => simp [readTagged, readRecord, members, hlookup, hdata]
        | some data => simp [readTagged, readRecord, members, hlookup, hdata, htag]
    | _ => rfl
  have hunknown : payloadType payload = "unknown" := by
    unfold payloadType
    cases hget : payload.get? "type" with
    | none => rfl
    | some tag =>
      rw [hget, Option.bind_some] at htype
      cases tag with
      | str s => simp [Codec.tag?] at htype
      | _ => rfl
  unfold upcastPayload
  rw [if_neg (UInt16.lt_irrefl _), if_neg (UInt16.lt_irrefl _), hunknown]
  simp [hknown, hread]

end Upcast

end VibeKanban.Agent
