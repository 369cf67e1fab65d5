import VibeKanban.Profiles.Configs

/-! Overrides against the built-in profiles give the profiles back, also through the file. -/
namespace VibeKanban.Profiles
open Lib

variable {σ : Type} {toCase : String → String}

structure SameProfile (a b : ExecutorProfile σ) : Prop where
  recent : a.recentlyUsedModels = b.recentlyUsedModels
  configurations : ∀ variant, a.configurations.lookup variant = b.configurations.lookup variant

/-- The profiles are equal as maps. -/
def Same (a b : ExecutorConfigs σ) : Prop :=
  ∀ executor, Option.Rel SameProfile (a.executors.lookup executor) (b.executors.lookup executor)

/-- The built-in profiles, in any order: a default configuration for every executor. -/
def IsDefaults (settings : BaseCodingAgent → σ) (defaults : ExecutorConfigs σ) : Prop :=
  ∀ executor, ∃ profile, defaults.executors.lookup executor = some profile ∧
    profile.recentlyUsedModels = none ∧
    ∀ variant, profile.configurations.lookup variant =
      if variant = "DEFAULT" then some ⟨executor, settings executor⟩ else none

/-- All variant keys are in canonical form. -/
def Canonical (toCase : String → String) (configs : ExecutorConfigs σ) : Prop :=
  ∀ executor profile, configs.executors.lookup executor = some profile →
    ∀ variant ∈ profile.configurations, canonicalVariantKey toCase variant = variant

/-- A built-in executor or configuration is not there. -/
def Deletes (defaults current : ExecutorConfigs σ) : Prop :=
  ∃ executor base, defaults.executors.lookup executor = some base ∧
    (current.executors.lookup executor = none ∨
      ∃ profile, current.executors.lookup executor = some profile ∧
        ∃ variant ∈ base.configurations, variant ∉ profile.configurations)

section Compute
variable {defaults current overrides : ExecutorConfigs σ}

theorem findDeletion_eq_none :
    findDeletion defaults current = none ↔ ¬ Deletes defaults current := by
  unfold findDeletion Deletes
  rw [List.findSome?_eq_none_iff]
  constructor
  · rintro h ⟨executor, base, hbase, hmissing⟩
    have hentry := h ⟨executor, base⟩ (AList.mem_lookup_iff.mp hbase)
    rcases hmissing with hnone | ⟨profile, hprofile, variant, hvariant, habsent⟩
    · rw [hnone] at hentry
      cases hentry
    · rw [hprofile, Option.map_eq_none_iff, List.find?_eq_none] at hentry
      exact hentry variant hvariant (by simpa using habsent)
  · rintro h ⟨executor, base⟩ hmem
    have hbase : defaults.executors.lookup executor = some base := AList.mem_lookup_iff.mpr hmem
    cases hprofile : current.executors.lookup executor with
    | none => exact absurd ⟨executor, base, hbase, .inl hprofile⟩ h
    | some profile =>
      simp only [Option.map_eq_none_iff, List.find?_eq_none]
      intro variant hvariant habsent
      exact h ⟨executor, base, hbase, .inr ⟨profile, hprofile, variant, hvariant, by simpa using habsent⟩⟩

theorem lookup_mergeProfile (base override : ExecutorProfile σ) (variant : String) :
    (mergeProfile base override).configurations.lookup variant =
      (override.configurations.lookup variant).or (base.configurations.lookup variant) := by
  show (Dict.upsertAll _ _ _).lookup variant = _
  rw [Dict.lookup_upsertAll]
  cases override.configurations.lookup variant <;> rfl

theorem lookup_mergeWithDefaults (executor : BaseCodingAgent) :
    (mergeWithDefaults defaults overrides).executors.lookup executor =
      match overrides.executors.lookup executor with
      | none => defaults.executors.lookup executor
      | some override => some (match defaults.executors.lookup executor with
        | some base => mergeProfile base override
        | none => override) := by
  show (Dict.upsertAll _ _ _).lookup executor = _
  rw [Dict.lookup_upsertAll]
  cases overrides.executors.lookup executor <;> rfl

theorem SameProfile.refl (profile : ExecutorProfile σ) : SameProfile profile profile :=
  ⟨rfl, fun _ => rfl⟩

theorem SameProfile.trans {a b c : ExecutorProfile σ} (h : SameProfile a b) (h' : SameProfile b c) :
    SameProfile a c :=
  ⟨h.recent.trans h'.recent, fun variant => (h.configurations variant).trans (h'.configurations variant)⟩

/-- Overrides that hold nothing leave the built-in profile. -/
theorem same_of_no_override {base override : ExecutorProfile σ}
    (h : ¬ (override.configurations.entries ≠ [] ∨ override.recentlyUsedModels.isSome)) :
    SameProfile base (mergeProfile base override) := by
  push Not at h
  have hnone : override.recentlyUsedModels.isSome = false := by simpa using h.2
  constructor
  · simp [mergeProfile, hnone]
  · intro variant
    rw [lookup_mergeProfile]
    have hempty : override.configurations.lookup variant = none := by
      rw [AList.lookup, h.1]
      rfl
    rw [hempty, Option.none_or]

variable [DecidableEq σ]

/-- A profile is the built-in one with its overrides, when none of the built-in is missing. -/
theorem same_overrideProfile {base profile : ExecutorProfile σ} (hrecent : base.recentlyUsedModels = none)
    (hkept : ∀ variant ∈ base.configurations, variant ∈ profile.configurations) :
    SameProfile (mergeProfile base (overrideProfile base profile)) profile := by
  constructor
  · unfold mergeProfile overrideProfile
    rw [hrecent]
    cases profile.recentlyUsedModels <;> simp
  · intro variant
    rw [lookup_mergeProfile]
    unfold overrideProfile
    rw [Dict.lookup_filterMapEntries]
    cases hprofile : profile.configurations.lookup variant with
    | none =>
      have habsent : variant ∉ base.configurations := fun hmem =>
        AList.lookup_eq_none.mp hprofile (hkept variant hmem)
      rw [AList.lookup_eq_none.mpr habsent]
      rfl
    | some config =>
      cases hbase : base.configurations.lookup variant with
      | none => simp
      | some builtIn =>
        by_cases heq : config = builtIn <;> simp [heq]

theorem computeOverrides_ok (h : computeOverrides defaults current = .ok overrides) :
    ¬ Deletes defaults current ∧ ∀ executor, overrides.executors.lookup executor =
      (current.executors.lookup executor).bind fun profile =>
        match defaults.executors.lookup executor with
        | some base =>
          let override := overrideProfile base profile
          if override.configurations.entries ≠ [] ∨ override.recentlyUsedModels.isSome then some override
          else none
        | none => some profile := by
  unfold computeOverrides at h
  cases hdeletion : findDeletion defaults current with
  | some error => simp [hdeletion] at h
  | none =>
    rw [hdeletion] at h
    obtain rfl := Except.ok.inj h
    exact ⟨findDeletion_eq_none.mp hdeletion, fun executor => Dict.lookup_filterMapEntries _ _⟩

/-- The built-in profiles with the overrides of some profiles are these. -/
theorem same_mergeWithDefaults
    (hrecent : ∀ executor base, defaults.executors.lookup executor = some base → base.recentlyUsedModels = none)
    (h : computeOverrides defaults current = .ok overrides) :
    Same (mergeWithDefaults defaults overrides) current := by
  obtain ⟨hkept, hoverrides⟩ := computeOverrides_ok h
  intro executor
  rw [lookup_mergeWithDefaults, hoverrides]
  cases hcurrent : current.executors.lookup executor with
  | none =>
    cases hbase : defaults.executors.lookup executor with
    | none => exact .none
    | some base => exact absurd ⟨executor, base, hbase, .inl hcurrent⟩ hkept
  | some profile =>
    cases hbase : defaults.executors.lookup executor with
    | none => exact .some (.refl profile)
    | some base =>
      have hall : ∀ variant ∈ base.configurations, variant ∈ profile.configurations := by
        intro variant hvariant
        by_contra habsent
        exact hkept ⟨executor, base, hbase, .inr ⟨profile, hcurrent, variant, hvariant, habsent⟩⟩
      have hmerged := same_overrideProfile (hrecent executor base hbase) hall
      simp only [Option.bind_some]
      by_cases hneeded : (overrideProfile base profile).configurations.entries ≠ [] ∨
          (overrideProfile base profile).recentlyUsedModels.isSome
      · simp only [if_pos hneeded]
        exact .some hmerged
      · simp only [if_neg hneeded]
        exact .some ((same_of_no_override hneeded).trans hmerged)

end Compute

section Same
variable {a b c d : ExecutorConfigs σ}

theorem SameProfile.symm {a b : ExecutorProfile σ} (h : SameProfile a b) : SameProfile b a :=
  ⟨h.recent.symm, fun variant => (h.configurations variant).symm⟩

theorem SameProfile.mem_iff {a b : ExecutorProfile σ} (h : SameProfile a b) (variant : String) :
    variant ∈ a.configurations ↔ variant ∈ b.configurations := by
  rw [← AList.lookup_isSome, ← AList.lookup_isSome, h.configurations]

theorem SameProfile.mergeProfile {a b c d : ExecutorProfile σ} (hbase : SameProfile a b)
    (hoverride : SameProfile c d) : SameProfile (mergeProfile a c) (mergeProfile b d) := by
  constructor
  · show (if c.recentlyUsedModels.isSome then _ else _) = (if d.recentlyUsedModels.isSome then _ else _)
    rw [hbase.recent, hoverride.recent]
  · intro variant
    rw [lookup_mergeProfile, lookup_mergeProfile, hbase.configurations, hoverride.configurations]

theorem Same.trans (h : Same a b) (h' : Same b c) : Same a c := by
  intro executor
  have hab := h executor
  have hbc := h' executor
  generalize a.executors.lookup executor = x at hab ⊢
  generalize b.executors.lookup executor = y at hab hbc
  generalize c.executors.lookup executor = z at hbc ⊢
  cases hab with
  | none => exact hbc
  | some hxy =>
    cases hbc with
    | some hyz => exact .some (hxy.trans hyz)

theorem Same.refl (a : ExecutorConfigs σ) : Same a a := by
  intro executor
  cases a.executors.lookup executor with
  | none => exact .none
  | some profile => exact .some (.refl profile)

theorem Same.symm (h : Same a b) : Same b a := by
  intro executor
  have hab := h executor
  generalize a.executors.lookup executor = x at hab ⊢
  generalize b.executors.lookup executor = y at hab ⊢
  cases hab with
  | none => exact .none
  | some hsame => exact .some hsame.symm

theorem Same.mergeWithDefaults (hdefaults : Same a b) (hoverrides : Same c d) :
    Same (mergeWithDefaults a c) (mergeWithDefaults b d) := by
  intro executor
  rw [lookup_mergeWithDefaults, lookup_mergeWithDefaults]
  have hbase := hdefaults executor
  have hoverride := hoverrides executor
  generalize a.executors.lookup executor = x at hbase ⊢
  generalize b.executors.lookup executor = y at hbase ⊢
  generalize c.executors.lookup executor = z at hoverride ⊢
  generalize d.executors.lookup executor = w at hoverride ⊢
  cases hoverride with
  | none => exact hbase
  | some hzw =>
    cases hbase with
    | none => exact .some hzw
    | some hxy => exact .some (hxy.mergeProfile hzw)

theorem Same.canonical (h : Same a b) (hb : Canonical toCase b) : Canonical toCase a := by
  intro executor profile hprofile variant hvariant
  have hboth := h executor
  rw [hprofile] at hboth
  generalize hother : b.executors.lookup executor = y at hboth
  cases hboth with
  | some hsame => exact hb executor _ hother variant ((hsame.mem_iff variant).mp hvariant)

theorem canonicalise_eq_self (h : Canonical toCase a) : a.canonicalise toCase = a := by
  have hprofiles : a.executors.mapValues (ExecutorProfile.canonicalise toCase) = a.executors := by
    apply Dict.mapValues_eq_self
    intro executor profile hprofile
    have hnothing : profile.configurations.keys.filter
        (fun key => canonicalVariantKey toCase key ≠ key) = [] := by
      rw [List.filter_eq_nil_iff]
      intro variant hvariant
      simpa using h executor profile hprofile variant hvariant
    unfold ExecutorProfile.canonicalise
    simp only [hnothing, List.foldl_nil]
  unfold ExecutorConfigs.canonicalise
  rw [hprofiles]

end Same

section Defaults
variable {settings : BaseCodingAgent → σ} {builtIn builtIn' : ExecutorConfigs σ}

theorem IsDefaults.recent (h : IsDefaults settings builtIn) {executor : BaseCodingAgent}
    {base : ExecutorProfile σ} (hbase : builtIn.executors.lookup executor = some base) :
    base.recentlyUsedModels = none := by
  obtain ⟨profile, hprofile, hrecent, -⟩ := h executor
  obtain rfl := Option.some.inj (hbase.symm.trans hprofile)
  exact hrecent

theorem IsDefaults.same (h : IsDefaults settings builtIn) (h' : IsDefaults settings builtIn') :
    Same builtIn builtIn' := by
  intro executor
  obtain ⟨profile, hprofile, hrecent, hvariants⟩ := h executor
  obtain ⟨profile', hprofile', hrecent', hvariants'⟩ := h' executor
  rw [hprofile, hprofile']
  exact .some ⟨hrecent.trans hrecent'.symm, fun variant => (hvariants variant).trans (hvariants' variant).symm⟩

theorem IsDefaults.canonical (h : IsDefaults settings builtIn) : Canonical toCase builtIn := by
  intro executor base hbase variant hvariant
  obtain ⟨profile, hprofile, -, hvariants⟩ := h executor
  obtain rfl := Option.some.inj (hbase.symm.trans hprofile)
  rw [← AList.lookup_isSome, hvariants] at hvariant
  by_cases hdefault : variant = "DEFAULT"
  · rw [hdefault]
    exact if_pos (by decide)
  · rw [if_neg hdefault] at hvariant
    cases hvariant

end Defaults

section Save
variable [DecidableEq σ] {settings : BaseCodingAgent → σ} {builtIn current overrides : ExecutorConfigs σ}

theorem mem_overrideProfile {base profile : ExecutorProfile σ} {variant : String}
    (h : variant ∈ (overrideProfile base profile).configurations) : variant ∈ profile.configurations := by
  rw [← AList.lookup_isSome] at h ⊢
  unfold overrideProfile at h
  rw [Dict.lookup_filterMapEntries] at h
  cases hlookup : profile.configurations.lookup variant with
  | none => simp [hlookup] at h
  | some _ => rfl

/-- The overrides have no variants of their own. -/
theorem computeOverrides_canonical {defaults : ExecutorConfigs σ} (hcurrent : Canonical toCase current)
    (h : computeOverrides defaults current = .ok overrides) : Canonical toCase overrides := by
  intro executor override hoverride variant hvariant
  rw [(computeOverrides_ok h).2 executor] at hoverride
  cases hprofile : current.executors.lookup executor with
  | none => simp [hprofile] at hoverride
  | some profile =>
    rw [hprofile, Option.bind_some] at hoverride
    apply hcurrent executor profile hprofile variant
    cases hbase : defaults.executors.lookup executor with
    | none =>
      rw [hbase] at hoverride
      obtain rfl := Option.some.inj hoverride
      exact hvariant
    | some base =>
      simp only [hbase, Option.ite_none_right_eq_some] at hoverride
      obtain ⟨-, heq⟩ := hoverride
      rw [← Option.some.inj heq] at hvariant
      exact mem_overrideProfile hvariant

theorem saveOverrides_ok_iff (hbuiltIn : Canonical toCase builtIn) :
    saveOverrides toCase builtIn current = .ok overrides ↔
      computeOverrides builtIn (current.canonicalise toCase) = .ok overrides ∧
        validateMerged (mergeWithDefaults builtIn overrides) = .ok () := by
  unfold saveOverrides
  rw [canonicalise_eq_self hbuiltIn]
  simp only [bind, Except.bind]
  cases computeOverrides builtIn (current.canonicalise toCase) with
  | error => simp
  | ok computed =>
    cases hvalid : validateMerged (mergeWithDefaults builtIn computed) with
    | error =>
      simp only [hvalid, reduceCtorEq, false_iff, Except.ok.injEq, not_and]
      intro heq h
      rw [← heq, hvalid] at h
      cases h
    | ok =>
      simp only [hvalid, pure, Except.pure, Except.ok.injEq]
      constructor
      · intro heq
        exact ⟨heq, heq ▸ hvalid⟩
      · intro h
        exact h.1

theorem computeOverrides_error_iff {defaults : ExecutorConfigs σ} :
    (∃ error, computeOverrides defaults current = .error error) ↔ Deletes defaults current := by
  rw [← not_iff_not, ← findDeletion_eq_none]
  unfold computeOverrides
  cases findDeletion defaults current <;> simp

/-- What is checked of a profile. -/
structure ValidProfile (executor : BaseCodingAgent) (profile : ExecutorProfile σ) : Prop where
  default : ∃ config, profile.configurations.lookup "DEFAULT" = some config ∧ config.kind = executor
  names : ∀ variant ∈ profile.configurations, "__".toList.isPrefixOf variant.toList = false

omit [DecidableEq σ] in
theorem validateProfile_eq_none {executor : BaseCodingAgent} {profile : ExecutorProfile σ} :
    validateProfile executor profile = none ↔ ValidProfile executor profile := by
  unfold validateProfile
  cases hdefault : profile.configurations.lookup "DEFAULT" with
  | none =>
    constructor
    · intro h
      cases h
    · intro h
      obtain ⟨config, hconfig, -⟩ := h.default
      rw [hdefault] at hconfig
      cases hconfig
  | some config =>
    by_cases hkind : config.kind = executor
    · simp only [hkind, ne_eq, not_true_eq_false, if_false, Option.map_eq_none_iff, List.find?_eq_none,
        Bool.not_eq_true]
      constructor
      · intro h
        exact ⟨⟨config, hdefault, hkind⟩, h⟩
      · intro h
        exact h.names
    · simp only [ne_eq, hkind, not_false_eq_true, if_true]
      constructor
      · intro h
        cases h
      · intro h
        obtain ⟨other, hother, hsame⟩ := h.default
        obtain rfl := Option.some.inj (hdefault.symm.trans hother)
        exact absurd hsame hkind

omit [DecidableEq σ] in
theorem validateMerged_ok_iff {merged : ExecutorConfigs σ} :
    validateMerged merged = .ok () ↔ ∀ executor profile,
      merged.executors.lookup executor = some profile → ValidProfile executor profile := by
  have hnone : validateMerged merged = .ok () ↔
      merged.executors.entries.findSome? (fun entry => validateProfile entry.1 entry.2) = none := by
    unfold validateMerged
    cases merged.executors.entries.findSome? _ <;> simp
  rw [hnone, List.findSome?_eq_none_iff]
  constructor
  · intro h executor profile hprofile
    exact validateProfile_eq_none.mp (h ⟨executor, profile⟩ (AList.mem_lookup_iff.mp hprofile))
  · rintro h ⟨executor, profile⟩ hmem
    exact validateProfile_eq_none.mpr (h executor profile (AList.mem_lookup_iff.mpr hmem))

omit [DecidableEq σ] in
theorem SameProfile.valid {a b : ExecutorProfile σ} {executor : BaseCodingAgent} (h : SameProfile a b)
    (ha : ValidProfile executor a) : ValidProfile executor b := by
  constructor
  · rw [← h.configurations]
    exact ha.default
  · intro variant hvariant
    exact ha.names variant ((h.mem_iff variant).mpr hvariant)

omit [DecidableEq σ] in
theorem Same.valid {a b : ExecutorConfigs σ} (h : Same a b) (ha : validateMerged a = .ok ()) :
    validateMerged b = .ok () := by
  rw [validateMerged_ok_iff] at ha ⊢
  intro executor profile hprofile
  have hboth := h executor
  rw [hprofile] at hboth
  generalize hother : a.executors.lookup executor = x at hboth
  cases hboth with
  | some hsame => exact hsame.valid (ha executor _ hother)

theorem SameProfile.overrideProfile {a b c d : ExecutorProfile σ} (hbase : SameProfile a b)
    (hprofile : SameProfile c d) : SameProfile (overrideProfile a c) (overrideProfile b d) := by
  constructor
  · unfold Profiles.overrideProfile
    simp only [hbase.recent, hprofile.recent]
  · intro variant
    unfold Profiles.overrideProfile
    simp only [Dict.lookup_filterMapEntries, hbase.configurations, hprofile.configurations]

omit [DecidableEq σ] in
theorem SameProfile.needed {a b : ExecutorProfile σ} (h : SameProfile a b) :
    Option.Rel SameProfile
      (if a.configurations.entries ≠ [] ∨ a.recentlyUsedModels.isSome then some a else none)
      (if b.configurations.entries ≠ [] ∨ b.recentlyUsedModels.isSome then some b else none) := by
  have hiff : (a.configurations.entries ≠ [] ∨ a.recentlyUsedModels.isSome) ↔
      (b.configurations.entries ≠ [] ∨ b.recentlyUsedModels.isSome) := by
    rw [h.recent, ne_eq, ne_eq, Dict.entries_eq_nil, Dict.entries_eq_nil]
    simp only [h.configurations]
  by_cases hneeded : a.configurations.entries ≠ [] ∨ a.recentlyUsedModels.isSome
  · rw [if_pos hneeded, if_pos (hiff.mp hneeded)]
    exact .some h
  · rw [if_neg hneeded, if_neg fun hb => hneeded (hiff.mpr hb)]
    exact .none

/-- What is written depends on the profiles as maps only. -/
theorem Same.computeOverrides {a b c d : ExecutorConfigs σ} (hbase : Same a b) (hcurrent : Same c d)
    (h : computeOverrides a c = .ok overrides) :
    ∃ again, computeOverrides b d = .ok again ∧ Same overrides again := by
  obtain ⟨hkept, hlookup⟩ := computeOverrides_ok h
  have hkept' : ¬ Deletes b d := by
    rintro ⟨executor, base, hb, hmissing⟩
    have hab := hbase executor
    have hcd := hcurrent executor
    rw [hb] at hab
    generalize ha : a.executors.lookup executor = x at hab
    generalize hc : c.executors.lookup executor = y at hcd
    cases hab with
    | some hsame =>
      apply hkept
      refine ⟨executor, _, ha, ?_⟩
      rcases hmissing with hnone | ⟨profile, hd, variant, hvariant, habsent⟩
      · rw [hnone] at hcd
        cases hcd
        exact .inl hc
      · rw [hd] at hcd
        cases hcd with
        | some hprofile =>
          exact .inr ⟨_, hc, variant, (hsame.mem_iff variant).mpr hvariant,
            fun hmem => habsent ((hprofile.mem_iff variant).mp hmem)⟩
  cases hagain : Profiles.computeOverrides b d with
  | error error => exact absurd (computeOverrides_error_iff.mp ⟨error, hagain⟩) hkept'
  | ok again =>
    refine ⟨again, rfl, ?_⟩
    intro executor
    rw [hlookup, (computeOverrides_ok hagain).2]
    have hab := hbase executor
    have hcd := hcurrent executor
    generalize a.executors.lookup executor = x at hab ⊢
    generalize b.executors.lookup executor = y at hab ⊢
    generalize c.executors.lookup executor = z at hcd ⊢
    generalize d.executors.lookup executor = w at hcd ⊢
    cases hcd with
    | none => exact .none
    | some hprofile =>
      cases hab with
      | none => exact .some hprofile
      | some hsame =>
        exact (hsame.overrideProfile hprofile).needed

/-- Saving computes what the profiles change in the built-in ones, and loading gives them back; saving
what was loaded writes the same again. -/
theorem overrides_round_trip (hbuiltIn : IsDefaults settings builtIn) (hcurrent : Canonical toCase current) :
    ((∃ error, computeOverrides builtIn current = .error error) ↔ Deletes builtIn current) ∧
      (∀ overrides, computeOverrides builtIn current = .ok overrides →
        Same (mergeWithDefaults builtIn overrides) current) ∧
      ∀ overrides, saveOverrides toCase builtIn current = .ok overrides →
        ∀ builtIn' read, IsDefaults settings builtIn' → Same read overrides →
          Same (load toCase builtIn' (.content read)) current ∧
            ∃ again, saveOverrides toCase builtIn' (load toCase builtIn' (.content read)) = .ok again ∧
              Same again overrides := by
  have hmerge : ∀ overrides, computeOverrides builtIn current = .ok overrides →
      Same (mergeWithDefaults builtIn overrides) current :=
    fun overrides h => same_mergeWithDefaults (fun _ _ hbase => hbuiltIn.recent hbase) h
  refine ⟨computeOverrides_error_iff, hmerge, ?_⟩
  intro overrides hsave builtIn' read hbuiltIn' hread
  rw [saveOverrides_ok_iff hbuiltIn.canonical, canonicalise_eq_self hcurrent] at hsave
  obtain ⟨hcompute, hvalid⟩ := hsave
  have hcanonical := hread.canonical (computeOverrides_canonical hcurrent hcompute)
  have hdefaults := hbuiltIn'.same hbuiltIn
  have hload : load toCase builtIn' (.content read) = mergeWithDefaults builtIn' read := by
    show mergeWithDefaults (builtIn'.canonicalise toCase) (read.canonicalise toCase) = _
    rw [canonicalise_eq_self hbuiltIn'.canonical, canonicalise_eq_self hcanonical]
  have hloaded : Same (load toCase builtIn' (.content read)) current := by
    rw [hload]
    exact (hdefaults.mergeWithDefaults hread).trans (hmerge overrides hcompute)
  refine ⟨hloaded, ?_⟩
  obtain ⟨again, hagain, hsame⟩ := hdefaults.symm.computeOverrides hloaded.symm hcompute
  refine ⟨again, ?_, hsame.symm⟩
  rw [saveOverrides_ok_iff hbuiltIn'.canonical, canonicalise_eq_self (hloaded.canonical hcurrent)]
  exact ⟨hagain, (hdefaults.symm.mergeWithDefaults hsame).valid hvalid⟩

end Save

theorem isDefaults_fromDefaults : IsDefaults defaultSettings fromDefaults := by
  intro executor
  refine ⟨⟨none, AList.singleton "DEFAULT" ⟨executor, defaultSettings executor⟩⟩, ?_, rfl, ?_⟩
  · cases executor <;> rfl
  · intro variant
    by_cases hdefault : variant = "DEFAULT"
    · rw [if_pos hdefault, hdefault]
      exact AList.lookup_insert ∅
    · rw [if_neg hdefault]
      exact List.dlookup_cons_ne [] _ hdefault

/-- The built-in profiles with a plan variant of Claude Code. -/
def withPlan : ExecutorConfigs (List (String × String)) where
  executors := fromDefaults.executors.insert .claudeCode
    ⟨some ⟨["opus"], ∅⟩, (AList.singleton "PLAN" ⟨.claudeCode, [("plan", "true")]⟩).insert "DEFAULT"
      ⟨.claudeCode, defaultSettings .claudeCode⟩⟩

theorem canonical_withPlan : Canonical id withPlan := by
  have hall : ∀ entry ∈ withPlan.executors.entries, ∀ variant ∈ entry.2.configurations.keys,
      canonicalVariantKey id variant = variant := by decide
  intro executor profile hprofile variant hvariant
  exact hall ⟨executor, profile⟩ (AList.mem_lookup_iff.mp hprofile) variant hvariant

theorem overrides_round_trip_plan : ∃ overrides,
    saveOverrides id fromDefaults withPlan = .ok overrides ∧
      Same (load id fromDefaults (.content overrides)) withPlan := by
  refine ⟨_, rfl, ?_⟩
  have h := overrides_round_trip isDefaults_fromDefaults canonical_withPlan
  exact (h.2.2 _ rfl fromDefaults _ isDefaults_fromDefaults (Same.refl _)).1

end VibeKanban.Profiles
