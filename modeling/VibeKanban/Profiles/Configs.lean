import VibeKanban.Lib.Dict
import Mathlib.Data.Finmap

/-! The executor profiles: the built-in ones, what a user changes in them, and the lookup of an agent. -/
namespace VibeKanban.Profiles
open Lib

inductive BaseCodingAgent where
  | claudeCode | gemini | codex | ohMyPi | opencode | deepseekHarness
  deriving DecidableEq, Repr

def BaseCodingAgent.name : BaseCodingAgent → String
  | .claudeCode => "CLAUDE_CODE"
  | .gemini => "GEMINI"
  | .codex => "CODEX"
  | .ohMyPi => "OH_MY_PI"
  | .opencode => "OPENCODE"
  | .deepseekHarness => "DEEPSEEK_HARNESS"

/-- An agent: its kind and the settings of that kind. -/
structure CodingAgent (σ : Type) where
  kind : BaseCodingAgent
  settings : σ
  deriving DecidableEq

structure ExecutorProfileId where
  executor : BaseCodingAgent
  variant : Option String
  deriving DecidableEq

structure ExecutorRecentModels where
  models : List String
  reasoningByModel : Finmap fun _ : String => String
  deriving DecidableEq

def ExecutorRecentModels.default : ExecutorRecentModels := ⟨[], ∅⟩

structure ExecutorProfile (σ : Type) where
  recentlyUsedModels : Option ExecutorRecentModels
  configurations : Dict String (CodingAgent σ)

structure ExecutorConfigs (σ : Type) where
  executors : Dict BaseCodingAgent (ExecutorProfile σ)

inductive ProfileError where
  | cannotDeleteExecutor (executor : BaseCodingAgent)
  | cannotDeleteBuiltInConfig (executor : BaseCodingAgent) (variant : String)
  | validation (text : String)
  deriving DecidableEq, Repr

/-- `toCase` is the conversion to SCREAMING_SNAKE_CASE. -/
def canonicalVariantKey (toCase : String → String) (raw : String) : String :=
  if raw.toList.map Char.toUpper = "DEFAULT".toList then "DEFAULT" else toCase raw

section Profile
variable {σ : Type} (toCase : String → String)

/-- The configuration under an old key is moved to its new one, unless that is taken. -/
def renameVariant (configurations : Dict String (CodingAgent σ)) (old : String) :
    Dict String (CodingAgent σ) :=
  match configurations.lookup old with
  | some config =>
    let left := configurations.erase old
    let new := canonicalVariantKey toCase old
    if new ∈ left then left else left.insert new config
  | none => configurations

def ExecutorProfile.canonicalise (profile : ExecutorProfile σ) : ExecutorProfile σ :=
  let replacements := profile.configurations.keys.filter fun key => canonicalVariantKey toCase key ≠ key
  { profile with configurations := replacements.foldl (renameVariant toCase) profile.configurations }

def ExecutorConfigs.canonicalise (configs : ExecutorConfigs σ) : ExecutorConfigs σ where
  executors := configs.executors.mapValues (ExecutorProfile.canonicalise toCase)

def mergeProfile (base override : ExecutorProfile σ) : ExecutorProfile σ where
  recentlyUsedModels :=
    if override.recentlyUsedModels.isSome then override.recentlyUsedModels else base.recentlyUsedModels
  configurations := Dict.upsertAll (fun _ config => config) override.configurations.entries base.configurations

def mergeWithDefaults (defaults overrides : ExecutorConfigs σ) : ExecutorConfigs σ where
  executors := Dict.upsertAll
    (fun base override => match base with
      | some profile => mergeProfile profile override
      | none => override)
    overrides.executors.entries defaults.executors

/-- The first built-in executor or configuration that is not there any more. -/
def findDeletion (defaults current : ExecutorConfigs σ) : Option ProfileError :=
  defaults.executors.entries.findSome? fun entry =>
    match current.executors.lookup entry.1 with
    | none => some (.cannotDeleteExecutor entry.1)
    | some profile =>
      (entry.2.configurations.keys.find? fun variant => variant ∉ profile.configurations).map
        (.cannotDeleteBuiltInConfig entry.1)

section Overrides
variable [DecidableEq σ]

def overrideProfile (base current : ExecutorProfile σ) : ExecutorProfile σ where
  recentlyUsedModels :=
    if current.recentlyUsedModels ≠ base.recentlyUsedModels then
      current.recentlyUsedModels.or (some .default)
    else none
  configurations := current.configurations.filterMapEntries fun variant config =>
    match base.configurations.lookup variant with
    | some builtIn => if config ≠ builtIn then some config else none
    | none => some config

def computeOverrides (defaults current : ExecutorConfigs σ) : Except ProfileError (ExecutorConfigs σ) :=
  match findDeletion defaults current with
  | some error => .error error
  | none => .ok
    { executors := current.executors.filterMapEntries fun executor profile =>
        match defaults.executors.lookup executor with
        | some base =>
          let override := overrideProfile base profile
          if override.configurations.entries ≠ [] ∨ override.recentlyUsedModels.isSome then some override
          else none
        | none => some profile }

end Overrides

/-- The check of one executor. -/
def validateProfile (executor : BaseCodingAgent) (profile : ExecutorProfile σ) : Option ProfileError :=
  match profile.configurations.lookup "DEFAULT" with
  | none => some (.validation
      ("Executor '" ++ executor.name ++ "' is missing required 'default' configuration"))
  | some config =>
    if config.kind ≠ executor then some (.validation
      ("Executor key '" ++ executor.name ++ "' does not match the agent variant '" ++ config.kind.name ++ "'"))
    else (profile.configurations.keys.find? fun variant => "__".toList.isPrefixOf variant.toList).map fun variant =>
      .validation ("Configuration name '" ++ variant ++ "' is reserved (starts with '__')")

def validateMerged (merged : ExecutorConfigs σ) : Except ProfileError Unit :=
  match merged.executors.entries.findSome? fun entry => validateProfile entry.1 entry.2 with
  | some error => .error error
  | none => .ok ()

/-- What is written to the file of the user profiles. -/
def saveOverrides [DecidableEq σ] (builtIn current : ExecutorConfigs σ) :
    Except ProfileError (ExecutorConfigs σ) := do
  let defaults := builtIn.canonicalise toCase
  let overrides ← computeOverrides defaults (current.canonicalise toCase)
  validateMerged (mergeWithDefaults defaults overrides)
  pure overrides

/-- The file of the user profiles. -/
inductive ProfilesFile (σ : Type) where
  | missing
  | unparsable
  | content (overrides : ExecutorConfigs σ)

def load (builtIn : ExecutorConfigs σ) : ProfilesFile σ → ExecutorConfigs σ
  | .content overrides =>
    mergeWithDefaults (builtIn.canonicalise toCase) (overrides.canonicalise toCase)
  | _ => builtIn.canonicalise toCase

end Profile

/-- The settings in default_profiles.json. -/
def defaultSettings : BaseCodingAgent → List (String × String)
  | .claudeCode => [("dangerously_skip_permissions", "true")]
  | .gemini | .opencode | .deepseekHarness => [("yolo", "true")]
  | .codex => [("sandbox", "\"danger-full-access\"")]
  | .ohMyPi => []

def fromDefaults : ExecutorConfigs (List (String × String)) where
  executors :=
    { entries := [.claudeCode, .gemini, .codex, .ohMyPi, .opencode, .deepseekHarness].map fun executor =>
        ⟨executor, none, AList.singleton "DEFAULT" ⟨executor, defaultSettings executor⟩⟩
      nodupKeys := by
        show List.Nodup [BaseCodingAgent.claudeCode, .gemini, .codex, .ohMyPi, .opencode, .deepseekHarness]
        decide }

section Lookup
variable {σ : Type} (configs : ExecutorConfigs σ)

def getCodingAgent (id : ExecutorProfileId) : Option (CodingAgent σ) :=
  (configs.executors.lookup id.executor).bind fun profile =>
    profile.configurations.lookup (id.variant.getD "DEFAULT")

/-- `none` is the panic for want of a default variant. -/
def getCodingAgentOrDefault (id : ExecutorProfileId) : Option (CodingAgent σ) :=
  (getCodingAgent configs id).or (getCodingAgent configs { id with variant := some "DEFAULT" })

end Lookup

end VibeKanban.Profiles
