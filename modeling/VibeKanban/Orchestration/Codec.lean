import VibeKanban.Agent.Codec
import VibeKanban.Orchestration.Store

/-! The JSON form of the payload of an orchestration event, and the guarantees of both upcasters. -/
namespace VibeKanban.Orchestration
open Lib
open Agent (Texts AgentEventPayload ContractDecodeError payloadType readTagged tagged upcastPayload)

/-- How the identities of executions and commands and their keys are written. -/
structure Identities extends Texts where
  node : Codec NodeExecutionId
  command : Codec CommandId
  key : Codec IdempotencyKey

def runStatus : Codec OrchestrationRunStatus :=
  Codec.enumeration [.pending, .running, .waitingForInput, .waitingForApproval, .cancelling,
    .succeeded, .failed, .cancelled]
    (fun
      | .pending => "pending" | .running => "running" | .waitingForInput => "waiting_for_input"
      | .waitingForApproval => "waiting_for_approval" | .cancelling => "cancelling"
      | .succeeded => "succeeded" | .failed => "failed" | .cancelled => "cancelled")
    (by intro a; cases a <;> rfl)

def nodeStatus : Codec OrchestrationNodeStatus :=
  Codec.enumeration [.pending, .ready, .running, .awaitingInput, .awaitingApproval, .cancelling,
    .succeeded, .failed, .cancelled]
    (fun
      | .pending => "pending" | .ready => "ready" | .running => "running"
      | .awaitingInput => "awaiting_input" | .awaitingApproval => "awaiting_approval"
      | .cancelling => "cancelling" | .succeeded => "succeeded" | .failed => "failed"
      | .cancelled => "cancelled")
    (by intro a; cases a <;> rfl)

def joinPolicy : Codec OrchestrationJoinPolicy :=
  Codec.enumeration [.all, .any, .each]
    (fun
      | .all => "all" | .any => "any" | .each => "each")
    (by intro a; cases a <;> rfl)

namespace OrchestrationEventPayload

def typeName : OrchestrationEventPayload → String
  | lifecycleChanged .. => "lifecycle_changed"
  | nodeStatusChanged .. => "node_status_changed"
  | agentRunLinked .. => "agent_run_linked"
  | joinDecided .. => "join_decided"
  | commandQueued .. => "command_queued"
  | projectionDegraded .. => "projection_degraded"
  | unknown .. => "unknown"

def data (ids : Identities) : OrchestrationEventPayload → List (String × Option Json)
  | lifecycleChanged status => [("status", some (runStatus.encode status))]
  | nodeStatusChanged node status =>
    [("node_execution_id", some (ids.node.encode node)), ("status", some (nodeStatus.encode status))]
  | agentRunLinked node agentRunId =>
    [("node_execution_id", some (ids.node.encode node)),
      ("agent_run_id", some (ids.uuid.encode agentRunId))]
  | joinDecided node policy consumed =>
    [("node_execution_id", some (ids.node.encode node)),
      ("policy", some (joinPolicy.encode policy)),
      ("consumed_source_execution_ids", some (ids.node.list.encode consumed))]
  | commandQueued commandId key =>
    [("command_id", some (ids.command.encode commandId)),
      ("idempotency_key", some (ids.key.encode key))]
  | projectionDegraded reason => [("reason", some (Codec.string.encode reason))]
  | unknown eventType payload =>
    [("event_type", some (Codec.string.encode eventType)),
      ("payload", some (Codec.value.encode payload))]

def toValue (ids : Identities) (payload : OrchestrationEventPayload) : Json :=
  tagged payload.typeName (payload.data ids)

/-- The payload of a type from its data. -/
def fromData (ids : Identities) (eventType : String) (data : Json) :
    Option OrchestrationEventPayload :=
  match eventType with
  | "lifecycle_changed" => readRecord data ["status"] fun
    | [status] => return lifecycleChanged (← required runStatus status)
    | _ => none
  | "node_status_changed" => readRecord data ["node_execution_id", "status"] fun
    | [node, status] =>
      return nodeStatusChanged (← required ids.node node) (← required nodeStatus status)
    | _ => none
  | "agent_run_linked" => readRecord data ["node_execution_id", "agent_run_id"] fun
    | [node, agentRunId] =>
      return agentRunLinked (← required ids.node node) (← required ids.uuid agentRunId)
    | _ => none
  | "join_decided" =>
    readRecord data ["node_execution_id", "policy", "consumed_source_execution_ids"] fun
    | [node, policy, consumed] =>
      return joinDecided (← required ids.node node) (← required joinPolicy policy)
        (← required ids.node.list consumed)
    | _ => none
  | "command_queued" => readRecord data ["command_id", "idempotency_key"] fun
    | [commandId, key] => return commandQueued (← required ids.command commandId) (← required ids.key key)
    | _ => none
  | "projection_degraded" => readRecord data ["reason"] fun
    | [reason] => return projectionDegraded (← required .string reason)
    | _ => none
  | "unknown" => readRecord data ["event_type", "payload"] fun
    | [eventType, payload] =>
      return unknown (← required .string eventType) (← required .value payload)
    | _ => none
  | _ => none

def fromValue (ids : Identities) (j : Json) : Option OrchestrationEventPayload :=
  readTagged (fromData ids) j

def knownTypes : List String :=
  ["lifecycle_changed", "node_status_changed", "agent_run_linked", "join_decided", "command_queued",
    "projection_degraded", "unknown"]

def payloadVersion : UInt16 := 1

def upcast (ids : Identities) (version : UInt16) (payload : Json) :
    Except ContractDecodeError OrchestrationEventPayload :=
  upcastPayload "orchestration_event.payload" payloadVersion knownTypes unknown (fromValue ids)
    version payload

theorem data_nodup (ids : Identities) (payload : OrchestrationEventPayload) :
    ((payload.data ids).map Prod.fst).Nodup := by
  cases payload <;> simp [data]

theorem fromData_data (ids : Identities) (payload : OrchestrationEventPayload) :
    fromData ids payload.typeName (record (payload.data ids)) = some payload := by
  cases payload with
  | _ => exact (readRecord_record (data_nodup ids _)).trans (by simp [data])

theorem typeName_known (payload : OrchestrationEventPayload) : payload.typeName ∈ knownTypes := by
  cases payload <;> simp [typeName, knownTypes]

end OrchestrationEventPayload

/-- Both upcasters read back what is written, and keep newer payloads and those of unknown types as
they are. There is no upcaster for older payloads, and none of the current version is read without its
type. -/
theorem payload_codec (ids : Identities) :
    (∀ payload : AgentEventPayload, payload.Plain →
      AgentEventPayload.upcast ids.toTexts AgentEventPayload.payloadVersion
        (payload.toValue ids.toTexts) = .ok payload) ∧
    (∀ payload : OrchestrationEventPayload,
      OrchestrationEventPayload.upcast ids OrchestrationEventPayload.payloadVersion
        (payload.toValue ids) = .ok payload) ∧
    ∀ (version : UInt16) (payload : Json),
      (AgentEventPayload.payloadVersion < version ∨ version = AgentEventPayload.payloadVersion ∧
          payloadType payload ∉ AgentEventPayload.knownTypes →
        AgentEventPayload.upcast ids.toTexts version payload =
          .ok (.unknown (payloadType payload) payload)) ∧
      (OrchestrationEventPayload.payloadVersion < version ∨
          version = OrchestrationEventPayload.payloadVersion ∧
          payloadType payload ∉ OrchestrationEventPayload.knownTypes →
        OrchestrationEventPayload.upcast ids version payload =
          .ok (.unknown (payloadType payload) payload)) ∧
      (version < AgentEventPayload.payloadVersion →
        AgentEventPayload.upcast ids.toTexts version payload = .error (.missingUpcaster
          "agent_event.payload" version AgentEventPayload.payloadVersion)) ∧
      (version < OrchestrationEventPayload.payloadVersion →
        OrchestrationEventPayload.upcast ids version payload = .error (.missingUpcaster
          "orchestration_event.payload" version OrchestrationEventPayload.payloadVersion)) ∧
      ((∀ items, payload ≠ .arr items) → (payload.get? "type").bind Codec.tag? = none →
        AgentEventPayload.upcast ids.toTexts AgentEventPayload.payloadVersion payload =
            .error .malformedCurrentPayload ∧
          OrchestrationEventPayload.upcast ids OrchestrationEventPayload.payloadVersion payload =
            .error .malformedCurrentPayload) := by
  refine ⟨?_, ?_, ?_⟩
  · intro payload hplain
    refine Agent.upcastPayload_current payload.typeName_known ?_
    exact Agent.readTagged_tagged.trans (AgentEventPayload.fromData_data ids.toTexts hplain)
  · intro payload
    refine Agent.upcastPayload_current payload.typeName_known ?_
    exact Agent.readTagged_tagged.trans (OrchestrationEventPayload.fromData_data ids payload)
  · intro version payload
    refine ⟨fun h => Agent.upcastPayload_unknown h, fun h => Agent.upcastPayload_unknown h,
      fun h => Agent.upcastPayload_older h, fun h => Agent.upcastPayload_older h, ?_⟩
    intro harray htype
    constructor
    · exact Agent.upcastPayload_typeless (by simp [AgentEventPayload.knownTypes]) harray htype
    · exact Agent.upcastPayload_typeless (by simp [OrchestrationEventPayload.knownTypes]) harray htype

section Fixture

def natText : Codec ℕ where
  encode n := .num n
  decode
    | .num n => if 0 ≤ n then some n.toNat else none
    | _ => none
  decode_encode n := by simp

def nodeText : Codec NodeExecutionId where
  encode id := .arr [.str id.nodeKey, .num id.iteration]
  decode
    | .arr [.str nodeKey, iteration] => (natText.decode iteration).map (⟨nodeKey, ·⟩)
    | _ => none
  decode_encode id := by simp [natText]

def commandText : Codec CommandId where
  encode
    | .caller id => .num id
    | .cancel node => .arr [nodeText.encode node]
    | .cancelRemaining join node => .arr [nodeText.encode join, nodeText.encode node]
  decode
    | .arr [node] => (nodeText.decode node).map .cancel
    | .arr [join, node] => do return .cancelRemaining (← nodeText.decode join) (← nodeText.decode node)
    | id => (natText.decode id).map .caller
  decode_encode id := by
    cases id with
    | caller id => simp [natText]
    | cancel node => simp [nodeText.decode_encode]
    | cancelRemaining join node => simp [nodeText.decode_encode]

def keyText : Codec IdempotencyKey where
  encode
    | .caller key => .str key
    | .cancel node => .arr [nodeText.encode node]
    | .cancelRemaining join node => .arr [nodeText.encode join, nodeText.encode node]
  decode
    | .arr [node] => (nodeText.decode node).map .cancel
    | .arr [join, node] => do return .cancelRemaining (← nodeText.decode join) (← nodeText.decode node)
    | key => key.asStr?.map .caller
  decode_encode key := by
    cases key with
    | caller key => simp [Json.asStr?]
    | cancel node => simp [nodeText.decode_encode]
    | cancelRemaining join node => simp [nodeText.decode_encode]

def plainTexts : Identities := ⟨⟨natText, natText⟩, nodeText, commandText, keyText⟩

/-- A tool call with arguments that are `null` comes back without arguments, a payload of version zero
is refused, and so is one without a type. -/
theorem payload_codec_loses :
    AgentEventPayload.upcast plainTexts.toTexts 1
        ((AgentEventPayload.toolCall none "read" .running (some .null) none).toValue
          plainTexts.toTexts) = .ok (.toolCall none "read" .running none none) ∧
      AgentEventPayload.upcast plainTexts.toTexts 0 (.obj [("type", .str "message")]) =
        .error (.missingUpcaster "agent_event.payload" 0 1) ∧
      AgentEventPayload.upcast plainTexts.toTexts 1 (.obj [("data", .obj [])]) =
        .error .malformedCurrentPayload := by
  decide

/-- A tool call and a queued command read back, a payload of an unknown type is kept, and one without
a type is refused. -/
theorem payload_codec_tool :
    AgentEventPayload.upcast plainTexts.toTexts 1
        ((AgentEventPayload.toolCall none "read" .running (some (.obj [])) none).toValue
          plainTexts.toTexts) = .ok (.toolCall none "read" .running (some (.obj [])) none) ∧
      OrchestrationEventPayload.upcast plainTexts 1
        ((OrchestrationEventPayload.commandQueued (.caller 1) (.caller "dispatch")).toValue
          plainTexts) = .ok (.commandQueued (.caller 1) (.caller "dispatch")) ∧
      AgentEventPayload.upcast plainTexts.toTexts 1 (.obj [("type", .str "future")]) =
        .ok (.unknown "future" (.obj [("type", .str "future")])) ∧
      AgentEventPayload.upcast plainTexts.toTexts 1 (.obj [("data", .obj [])]) =
        .error .malformedCurrentPayload := by
  obtain ⟨hagent, horchestration, hother⟩ := payload_codec plainTexts
  refine ⟨hagent _ ⟨by simp, by simp⟩, horchestration _, ?_, ?_⟩
  · exact (hother 1 (.obj [("type", .str "future")])).1 (Or.inr ⟨rfl, by decide⟩)
  · have htypeless := (hother 1 (.obj [("data", .obj [])])).2.2.2.2
    exact (htypeless (fun items h => Json.noConfusion h) rfl).1

end Fixture

end VibeKanban.Orchestration
