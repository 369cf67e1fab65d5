import VibeKanban.Lib.Json
import VibeKanban.Runtime.Db

/-! The canonical events of an AgentRun. -/
namespace VibeKanban.Agent
open Lib
open VibeKanban.Runtime (AgentRunStatus)

inductive AgentRuntimeMessageRole where
  | user | assistant | system
  deriving DecidableEq, Repr

structure CanonicalMessage where
  messageId : ℕ
  role : AgentRuntimeMessageRole
  content : String
  deriving DecidableEq, Repr

inductive AgentRuntimeErrorKind where
  | executableNotFound | commandBuildFailed | authRequired | startupFailed | protocolFailed
  | processCrashed | outputParseFailed | approvalCancelled | approvalTimedOut | cancelled | unknown
  deriving DecidableEq, Repr

inductive AgentRuntimeLaunchPhase where
  | commandBuild | processSpawn | protocolConnect | warmup | sessionResume | accepted
  deriving DecidableEq, Repr

structure AgentRuntimeError where
  kind : AgentRuntimeErrorKind
  message : String
  provider : Option String
  launchPhase : Option AgentRuntimeLaunchPhase
  exitCode : Option Int32
  deriving DecidableEq, Repr

structure ProviderSessionReference where
  schemaVersion : UInt16
  providerId : String
  runtimeProfileId : String
  providerSessionId : String
  observedAt : ℕ
  metadata : Option Json
  deriving DecidableEq, Repr

inductive AgentFileChangeType where
  | added | modified | deleted
  deriving DecidableEq, Repr

inductive AgentRuntimeToolStatus where
  | created | running | waitingApproval | approved | denied | succeeded | failed | timedOut
  deriving DecidableEq, Repr

inductive AgentEventPayload where
  | lifecycleChanged (status : AgentRunStatus)
  | sessionObserved (providerSession : ProviderSessionReference)
  | message (message : CanonicalMessage) (finalOutput : Bool)
  | thinking (content : String)
  | fileChanges (toolCallId : String) (changes : List (String × AgentFileChangeType))
  | toolCall (toolCallId : Option String) (toolName : String) (status : AgentRuntimeToolStatus)
    (arguments result : Option Json)
  | approvalRequested (approvalId : String) (toolCallId : Option String) (toolName : String)
  | approvalResolved (approvalId : String) (approved : Bool) (reason : Option String)
  | inputRequested (inputId prompt : String)
  | inputResolved (inputId : String) (answered : Bool)
  | tokenUsage (inputTokens outputTokens : UInt64) (cachedInputTokens : Option UInt64)
  | error (error : AgentRuntimeError)
  | projectionDegraded (reason : String)
  | providerExtension (providerNamespace providerEvent : String) (payload : Json)
  | unknown (eventType : String) (payload : Json)
  deriving DecidableEq, Repr

end VibeKanban.Agent
