import VibeKanban.Profiles.RoundTrip

/-! Whether the agent that a profile id gives is one of the executor the id names. -/
namespace VibeKanban.Profiles
open Lib

variable {σ : Type} {toCase : String → String}

/-- The lookup does not panic and gives an agent of the executor's kind. -/
def KindSafe (configs : ExecutorConfigs σ) (id : ExecutorProfileId) : Prop :=
  ∃ agent, getCodingAgentOrDefault configs id = some agent ∧ agent.kind = id.executor

/-- The variant or the default is there under its own name, and another variant than the default has an
agent of the executor's kind. -/
def SaveSafe (configs : ExecutorConfigs σ) (id : ExecutorProfileId) : Prop :=
  ∀ profile, configs.executors.lookup id.executor = some profile →
    (id.variant.getD "DEFAULT" ∈ profile.configurations ∨ "DEFAULT" ∈ profile.configurations) ∧
    (id.variant.getD "DEFAULT" ≠ "DEFAULT" → ∀ agent,
      profile.configurations.lookup (id.variant.getD "DEFAULT") = some agent → agent.kind = id.executor)

/-- What the file has for the variant, or else for the default, has the executor's kind. -/
def FileSafe (toCase : String → String) : ProfilesFile σ → ExecutorProfileId → Prop
  | .content overrides, id => ∀ profile, overrides.executors.lookup id.executor = some profile →
    ∀ agent, ((profile.canonicalise toCase).configurations.lookup (id.variant.getD "DEFAULT")).or
      ((profile.canonicalise toCase).configurations.lookup "DEFAULT") = some agent →
        agent.kind = id.executor
  | _, _ => True

section Canonicalise
variable {configurations : Dict String (CodingAgent σ)} {key : String} {agent : CodingAgent σ}

/-- A renamed configuration takes no other's place. -/
theorem lookup_renameVariant {old : String} (hne : key ≠ old)
    (h : configurations.lookup key = some agent) :
    (renameVariant toCase configurations old).lookup key = some agent := by
  unfold renameVariant
  cases configurations.lookup old with
  | none => exact h
  | some config =>
    have hleft : (configurations.erase old).lookup key = some agent := by
      rw [AList.lookup_erase_ne hne, h]
    by_cases hnew : canonicalVariantKey toCase old ∈ configurations.erase old
    · simp only [if_pos hnew]
      exact hleft
    · simp only [if_neg hnew]
      rw [AList.lookup_insert_ne, hleft]
      intro heq
      rw [← heq, ← AList.lookup_isSome, hleft] at hnew
      exact hnew rfl

theorem lookup_renameVariants {olds : List String} (hnone : key ∉ olds)
    (h : configurations.lookup key = some agent) :
    (olds.foldl (renameVariant toCase) configurations).lookup key = some agent := by
  induction olds generalizing configurations with
  | nil => exact h
  | cons old rest ih =>
    rw [List.mem_cons, not_or] at hnone
    exact ih hnone.2 (lookup_renameVariant hnone.1 h)

/-- A configuration with a canonical name stays under it. -/
theorem lookup_canonicalise {profile : ExecutorProfile σ} (hkey : canonicalVariantKey toCase key = key)
    (h : profile.configurations.lookup key = some agent) :
    (profile.canonicalise toCase).configurations.lookup key = some agent := by
  apply lookup_renameVariants _ h
  rw [List.mem_filter]
  intro hmem
  simp [hkey] at hmem

theorem canonicalVariantKey_default : canonicalVariantKey toCase "DEFAULT" = "DEFAULT" :=
  if_pos (by decide)

end Canonicalise

section Lookup
variable {configs : ExecutorConfigs σ} {id : ExecutorProfileId} {profile : ExecutorProfile σ}

theorem getCodingAgentOrDefault_eq (h : configs.executors.lookup id.executor = some profile) :
    getCodingAgentOrDefault configs id =
      (profile.configurations.lookup (id.variant.getD "DEFAULT")).or
        (profile.configurations.lookup "DEFAULT") := by
  unfold getCodingAgentOrDefault getCodingAgent
  rw [h]
  rfl

end Lookup

section Accepted
variable {settings : BaseCodingAgent → σ} {builtIn current overrides : ExecutorConfigs σ}
  {id : ExecutorProfileId}

/-- Profiles that are saved have every executor, and what they have as its default is of its kind. -/
theorem saved_default [DecidableEq σ] (hbuiltIn : IsDefaults settings builtIn)
    (hsave : saveOverrides toCase builtIn current = .ok overrides) (executor : BaseCodingAgent) :
    ∃ profile, current.executors.lookup executor = some profile ∧
      ∀ agent, profile.configurations.lookup "DEFAULT" = some agent → agent.kind = executor := by
  rw [saveOverrides_ok_iff hbuiltIn.canonical] at hsave
  obtain ⟨hcompute, hvalid⟩ := hsave
  have hsame := same_mergeWithDefaults (fun _ _ hbase => hbuiltIn.recent hbase) hcompute
  have hcanonical := hsame.valid hvalid
  have hlookup : (current.canonicalise toCase).executors.lookup executor =
      (current.executors.lookup executor).map (ExecutorProfile.canonicalise toCase) :=
    Dict.lookup_mapValues _ _
  cases hprofile : current.executors.lookup executor with
  | none =>
    obtain ⟨base, hbase, -⟩ := hbuiltIn executor
    rw [hprofile] at hlookup
    exact absurd ⟨executor, base, hbase, .inl hlookup⟩ (computeOverrides_ok hcompute).1
  | some profile =>
    refine ⟨profile, rfl, ?_⟩
    intro agent hagent
    rw [hprofile] at hlookup
    obtain ⟨config, hconfig, hkind⟩ := (validateMerged_ok_iff.mp hcanonical executor _ hlookup).default
    rw [lookup_canonicalise canonicalVariantKey_default hagent] at hconfig
    rw [Option.some.inj hconfig]
    exact hkind

theorem kindSafe_saved [DecidableEq σ] (hbuiltIn : IsDefaults settings builtIn)
    (hsave : saveOverrides toCase builtIn current = .ok overrides) :
    KindSafe current id ↔ SaveSafe current id := by
  obtain ⟨profile, hprofile, hdefault⟩ := saved_default hbuiltIn hsave id.executor
  unfold KindSafe SaveSafe
  rw [getCodingAgentOrDefault_eq hprofile]
  simp only [hprofile, Option.some.injEq, forall_eq']
  cases hvariant : profile.configurations.lookup (id.variant.getD "DEFAULT") with
  | some agent =>
    have hmem : id.variant.getD "DEFAULT" ∈ profile.configurations := by
      rw [← AList.lookup_isSome, hvariant]
      rfl
    simp only [Option.some_or, Option.some.injEq, exists_eq_left', forall_eq', hmem, true_or, true_and]
    by_cases hname : id.variant.getD "DEFAULT" = "DEFAULT"
    · rw [hname] at hvariant
      simp only [hdefault agent hvariant, implies_true]
    · simp only [ne_eq, hname, not_false_eq_true, true_imp_iff]
  | none =>
    have hmem : id.variant.getD "DEFAULT" ∉ profile.configurations := AList.lookup_eq_none.mp hvariant
    simp only [Option.none_or, hmem, false_or, reduceCtorEq, false_imp_iff, implies_true, and_true]
    rw [← AList.lookup_isSome, Option.isSome_iff_exists]
    constructor
    · rintro ⟨agent, hagent, -⟩
      exact ⟨agent, hagent⟩
    · rintro ⟨agent, hagent⟩
      exact ⟨agent, hagent, hdefault agent hagent⟩

theorem kindSafe_defaults (hbuiltIn : IsDefaults settings builtIn) : KindSafe builtIn id := by
  obtain ⟨profile, hprofile, -, hvariants⟩ := hbuiltIn id.executor
  refine ⟨⟨id.executor, settings id.executor⟩, ?_, rfl⟩
  rw [getCodingAgentOrDefault_eq hprofile, hvariants, hvariants, if_pos rfl]
  split <;> rfl

theorem kindSafe_loaded (hbuiltIn : IsDefaults settings builtIn) (file : ProfilesFile σ) :
    KindSafe (load toCase builtIn file) id ↔ FileSafe toCase file id := by
  cases file with
  | missing | unparsable =>
    unfold load FileSafe
    rw [canonicalise_eq_self hbuiltIn.canonical]
    exact iff_true_intro (kindSafe_defaults hbuiltIn)
  | content overrides =>
    obtain ⟨base, hbase, -, hvariants⟩ := hbuiltIn id.executor
    have hmerged := @lookup_mergeWithDefaults _ builtIn (overrides.canonicalise toCase) id.executor
    have hlookup : (overrides.canonicalise toCase).executors.lookup id.executor =
        (overrides.executors.lookup id.executor).map (ExecutorProfile.canonicalise toCase) :=
      Dict.lookup_mapValues _ _
    rw [hlookup, hbase] at hmerged
    show KindSafe (mergeWithDefaults (builtIn.canonicalise toCase) (overrides.canonicalise toCase)) id ↔
      ∀ profile, overrides.executors.lookup id.executor = some profile → _
    rw [canonicalise_eq_self hbuiltIn.canonical]
    unfold KindSafe
    cases hprofile : overrides.executors.lookup id.executor with
    | none =>
      rw [hprofile, Option.map_none] at hmerged
      rw [getCodingAgentOrDefault_eq hmerged, hvariants, hvariants, if_pos rfl]
      simp only [reduceCtorEq, false_imp_iff, implies_true, iff_true]
      refine ⟨⟨id.executor, settings id.executor⟩, ?_, rfl⟩
      split <;> rfl
    | some profile =>
      rw [hprofile, Option.map_some] at hmerged
      rw [getCodingAgentOrDefault_eq hmerged, lookup_mergeProfile, lookup_mergeProfile, hvariants, hvariants,
        if_pos rfl]
      simp only [Option.some.injEq, forall_eq']
      cases hvariant : (profile.canonicalise toCase).configurations.lookup (id.variant.getD "DEFAULT") with
      | some agent => simp
      | none =>
        cases hdefault : (profile.canonicalise toCase).configurations.lookup "DEFAULT" with
        | none =>
          simp only [Option.none_or, reduceCtorEq, false_imp_iff, implies_true, iff_true]
          refine ⟨⟨id.executor, settings id.executor⟩, ?_, rfl⟩
          split <;> rfl
        | some agent =>
          -- a default of the file is looked up under another variant's name
          have hname : id.variant.getD "DEFAULT" ≠ "DEFAULT" := by
            intro heq
            rw [heq, hdefault] at hvariant
            cases hvariant
          simp [hname]

/-- When a lookup is safe, for the profiles that can be saved and for any file that is loaded. -/
theorem kindSafe_iff [DecidableEq σ] (hbuiltIn : IsDefaults settings builtIn) :
    (∀ current overrides, saveOverrides toCase builtIn current = .ok overrides →
      ∀ id, KindSafe current id ↔ SaveSafe current id) ∧
      ∀ file id, KindSafe (load toCase builtIn file) id ↔ FileSafe toCase file id :=
  ⟨fun _ _ hsave _ => kindSafe_saved hbuiltIn hsave, fun file _ => kindSafe_loaded hbuiltIn file⟩

end Accepted

/-- The case conversion on the names below. -/
def planCase (key : String) : String := if key = "plan" then "PLAN" else key

/-- A file with a plan variant of Codex, and one of Claude Code, in lower case, that runs Gemini. -/
def planFile : ProfilesFile (List (String × String)) := .content
  ⟨(AList.singleton .claudeCode ⟨none, AList.singleton "plan" ⟨.gemini, []⟩⟩).insert .codex
    ⟨none, AList.singleton "PLAN" ⟨.codex, [("plan", "true")]⟩⟩⟩

theorem saveSafe_withPlan : SaveSafe withPlan ⟨.claudeCode, some "PLAN"⟩ := by
  intro profile hprofile
  obtain rfl := Option.some.inj hprofile
  refine ⟨.inl (by decide), ?_⟩
  intro _ agent hagent
  obtain rfl := Option.some.inj hagent
  rfl

theorem fileSafe_codex : FileSafe planCase planFile ⟨.codex, some "PLAN"⟩ := by
  intro profile hprofile agent hagent
  obtain rfl := Option.some.inj hprofile
  obtain rfl := Option.some.inj hagent
  rfl

theorem not_fileSafe_claudeCode : ¬ FileSafe planCase planFile ⟨.claudeCode, some "PLAN"⟩ := by
  intro h
  have hkind := h ⟨none, AList.singleton "plan" ⟨.gemini, []⟩⟩ rfl ⟨.gemini, []⟩ (by decide)
  cases hkind

/-- The plan variant of the saved profiles and that of Codex in the file are safe, the one in lower case
is not. -/
theorem kindSafe_iff_planFile :
    KindSafe withPlan ⟨.claudeCode, some "PLAN"⟩ ∧
      KindSafe (load planCase fromDefaults planFile) ⟨.codex, some "PLAN"⟩ ∧
      ¬ KindSafe (load planCase fromDefaults planFile) ⟨.claudeCode, some "PLAN"⟩ := by
  obtain ⟨hsaved, hloaded⟩ := @kindSafe_iff _ planCase _ _ _ isDefaults_fromDefaults
  refine ⟨(hsaved withPlan _ rfl _).mpr saveSafe_withPlan, (hloaded _ _).mpr fileSafe_codex, ?_⟩
  rw [hloaded]
  exact not_fileSafe_claudeCode

/-- The built-in profiles with a variant of Claude Code that runs Gemini. -/
def withForeignPlan : ExecutorConfigs (List (String × String)) where
  executors := fromDefaults.executors.insert .claudeCode
    ⟨none, (AList.singleton "PLAN" ⟨.gemini, []⟩).insert "DEFAULT" ⟨.claudeCode, defaultSettings .claudeCode⟩⟩

/-- The kind of a variant is not checked. -/
theorem foreign_variant_saved : ¬ ∀ current overrides,
    saveOverrides id fromDefaults current = .ok overrides → ∀ id, KindSafe current id := by
  intro h
  obtain ⟨agent, hagent, hkind⟩ := h withForeignPlan _ rfl ⟨.claudeCode, some "PLAN"⟩
  have hgemini : agent = ⟨.gemini, []⟩ := (Option.some.inj hagent).symm
  rw [hgemini] at hkind
  cases hkind

end VibeKanban.Profiles
