import Mathlib
import VibeKanban.Lib.Successive

/-! The times at which a scheduled task recurs in its timezone. Instants and local times are counted in
nanoseconds, dates in days. -/
namespace VibeKanban.Schedule

def minute : ℤ := 60 * 10 ^ 9

def day : ℤ := 24 * 60 * minute

inductive LocalResult where
  | none
  | single (utc : ℤ)
  | ambiguous (early late : ℤ)
  deriving DecidableEq, Repr

/-- The offset of a timezone at every instant, constant from some instant on, and its resolution of local
times. -/
structure Timezone where
  offset : ℤ → ℤ
  settled : ℤ
  fromLocalDatetime : ℤ → LocalResult
  offset_settled : ∀ utc, settled ≤ utc → offset utc = offset settled
  offset_bounded : ∀ utc, -day < offset utc ∧ offset utc < day
  resolves : ∀ value, match fromLocalDatetime value with
    | .none => ∀ utc, utc + offset utc ≠ value
    | .single only => ∀ utc, utc + offset utc = value ↔ utc = only
    | .ambiguous early late =>
      early < late ∧ ∀ utc, utc + offset utc = value ↔ utc = early ∨ utc = late

inductive ScheduledTaskKind where
  | daily | weekly
  deriving DecidableEq, Repr

/-- `timeOfDay` is in minutes. -/
structure ScheduledTaskConfig where
  scheduleKind : ScheduledTaskKind
  timeOfDay : Fin 1440
  weekday : Option ℤ
  timezone : Timezone

/-- The weekday of a date, from 1 for Monday; date 0 is a Thursday. -/
def weekdayOf (date : ℤ) : ℤ := (date + 3) % 7 + 1

def weekdayFromI32 (value : ℤ) : ℤ := if 1 ≤ value ∧ value ≤ 6 then value else 7

def validateScheduleConfig (config : ScheduledTaskConfig) : Except String Unit :=
  match config.scheduleKind with
  | .daily =>
    if config.weekday.isSome then .error "Daily scheduled tasks must not include weekday" else .ok ()
  | .weekly =>
    if config.weekday.any fun weekday => 1 ≤ weekday ∧ weekday ≤ 7 then .ok ()
    else .error "Weekly scheduled tasks require weekday 1-7"

namespace Timezone
variable (tz : Timezone)

/-- The local time at an instant. -/
def toLocal (utc : ℤ) : ℤ := utc + tz.offset utc

/-- Local times from here on exist. -/
def horizon : ℤ := tz.toLocal tz.settled

theorem lt_horizon {value : ℤ} (h : tz.fromLocalDatetime value = .none) : value < tz.horizon := by
  by_contra hle
  have hsettled := tz.offset_settled (value - tz.offset tz.settled) (by
    unfold horizon toLocal at hle
    omega)
  have hnone := tz.resolves value
  rw [h] at hnone
  apply hnone (value - tz.offset tz.settled)
  omega

end Timezone

/-- A local time `minutes + 1` minutes later. -/
def shifted (value : ℤ) (minutes : ℕ) : ℤ := value + (minutes + 1) * minute

theorem lt_shifted (value : ℤ) (minutes : ℕ) : value < shifted value minutes := by
  unfold shifted minute
  omega

/-- The first reading of a local time that is after an instant. Behind a gap it is looked for minute by
minute. -/
def resolveLocalDatetime (tz : Timezone) (after value : ℤ) : Option ℤ :=
  match _h : tz.fromLocalDatetime value with
  | .single utc => if after < utc then some utc else none
  | .ambiguous early late =>
    if after < early then some early else if after < late then some late else none
  | .none =>
    (List.range 180).findSome? fun minutes => resolveLocalDatetime tz after (shifted value minutes)
termination_by (tz.horizon - value).toNat
decreasing_by
  have hhorizon := tz.lt_horizon (by assumption)
  have hlater := lt_shifted value minutes
  omega

namespace ScheduledTaskConfig
variable (config : ScheduledTaskConfig)

def localDate (utc : ℤ) : ℤ := config.timezone.toLocal utc / day

/-- The scheduled local time of a date. -/
def scheduledAt (date : ℤ) : ℤ := date * day + config.timeOfDay * minute

/-- The loop over the dates, with the passes left. -/
def searchDates (after : ℤ) : ℕ → ℤ → Except String ℤ
  | 0, _ => .error "Unable to compute next scheduled run"
  | passes + 1, date =>
    match config.scheduleKind, config.weekday with
    | .weekly, none => .error "Weekly scheduled tasks require weekday"
    | .weekly, some weekday =>
      if weekdayOf date ≠ weekdayFromI32 weekday then searchDates after passes (date + 1)
      else match resolveLocalDatetime config.timezone after (config.scheduledAt date) with
      | some utc => .ok utc
      | none => searchDates after passes (date + 1)
    | .daily, _ =>
      match resolveLocalDatetime config.timezone after (config.scheduledAt date) with
      | some utc => .ok utc
      | none => searchDates after passes (date + 1)

def computeNextRunAt (after : ℤ) : Except String ℤ :=
  config.searchDates after 370 (config.localDate after)

/-- The dates on which the task is due. -/
def Matches (date : ℤ) : Prop :=
  config.scheduleKind = .weekly → ∀ weekday ∈ config.weekday, weekdayOf date = weekdayFromI32 weekday

instance (date : ℤ) : Decidable (config.Matches date) :=
  inferInstanceAs (Decidable (_ → ∀ weekday ∈ config.weekday, _))

end ScheduledTaskConfig

/-- The instant at which a local time comes to pass: its first reading, that of the next minute in a
gap. -/
def occurrence (tz : Timezone) (value : ℤ) : ℤ :=
  match _h : tz.fromLocalDatetime value with
  | .single utc => utc
  | .ambiguous early _ => early
  | .none => occurrence tz (shifted value 0)
termination_by (tz.horizon - value).toNat
decreasing_by
  have hhorizon := tz.lt_horizon (by assumption)
  have hlater := lt_shifted value 0
  omega

/-- The local times that are looked at for one. -/
inductive Searched (tz : Timezone) : ℤ → ℤ → Prop where
  | here (value : ℤ) : Searched tz value value
  | gap {value found : ℤ} {minutes : ℕ} (hgap : tz.fromLocalDatetime value = .none)
      (hminutes : minutes < 180) (h : Searched tz (shifted value minutes) found) :
      Searched tz value found

/-- Nothing that is looked at for a local time is still to come. -/
def Past (tz : Timezone) (after value : ℤ) : Prop :=
  ∀ found utc, Searched tz value found → tz.toLocal utc = found → utc ≤ after

section Resolve
variable {tz : Timezone} {after value utc early late : ℤ}

theorem resolve_single (h : tz.fromLocalDatetime value = .single utc) :
    resolveLocalDatetime tz after value = if after < utc then some utc else none := by
  rw [resolveLocalDatetime]
  split <;> simp_all

theorem resolve_ambiguous (h : tz.fromLocalDatetime value = .ambiguous early late) :
    resolveLocalDatetime tz after value =
      if after < early then some early else if after < late then some late else none := by
  rw [resolveLocalDatetime]
  split <;> simp_all

theorem resolve_none (h : tz.fromLocalDatetime value = .none) :
    resolveLocalDatetime tz after value = (List.range 180).findSome? fun minutes =>
      resolveLocalDatetime tz after (shifted value minutes) := by
  rw [resolveLocalDatetime]
  split <;> simp_all

theorem occurrence_single (h : tz.fromLocalDatetime value = .single utc) :
    occurrence tz value = utc := by
  rw [occurrence]
  split <;> simp_all

theorem occurrence_ambiguous (h : tz.fromLocalDatetime value = .ambiguous early late) :
    occurrence tz value = early := by
  rw [occurrence]
  split <;> simp_all

theorem occurrence_none (h : tz.fromLocalDatetime value = .none) :
    occurrence tz value = occurrence tz (shifted value 0) := by
  rw [occurrence]
  split <;> simp_all

theorem reading_single (h : tz.fromLocalDatetime value = .single utc) (other : ℤ) :
    tz.toLocal other = value ↔ other = utc := by
  have hresolves := tz.resolves value
  rw [h] at hresolves
  exact hresolves other

theorem reading_ambiguous (h : tz.fromLocalDatetime value = .ambiguous early late) :
    early < late ∧ ∀ other, tz.toLocal other = value ↔ other = early ∨ other = late := by
  have hresolves := tz.resolves value
  rw [h] at hresolves
  exact hresolves

/-- Induction along the search through a gap. -/
theorem search_induction (tz : Timezone) {P : ℤ → Prop}
    (h : ∀ value, (tz.fromLocalDatetime value = .none → ∀ minutes, P (shifted value minutes)) →
      P value) (value : ℤ) : P value := by
  induction hmeasure : (tz.horizon - value).toNat using Nat.strong_induction_on generalizing value with
  | _ n ih =>
    apply h
    intro hgap minutes
    have hhorizon := tz.lt_horizon hgap
    have hlater := lt_shifted value minutes
    exact ih _ (by omega) _ rfl

theorem resolve_occurrence (h : after < occurrence tz value) :
    resolveLocalDatetime tz after value = some (occurrence tz value) := by
  induction value using search_induction tz with
  | h value ih =>
    cases hvalue : tz.fromLocalDatetime value with
    | single utc =>
      rw [occurrence_single hvalue] at h ⊢
      rw [resolve_single hvalue, if_pos h]
    | ambiguous early late =>
      rw [occurrence_ambiguous hvalue] at h ⊢
      rw [resolve_ambiguous hvalue, if_pos h]
    | none =>
      rw [occurrence_none hvalue] at h ⊢
      have hfirst : List.range 180 = 0 :: (List.range 179).map Nat.succ := List.range_succ_eq_map
      rw [resolve_none hvalue, hfirst, List.findSome?_cons, ih hvalue 0 h]

theorem resolve_past (h : Past tz after value) : resolveLocalDatetime tz after value = none := by
  induction value using search_induction tz with
  | h value ih =>
    cases hvalue : tz.fromLocalDatetime value with
    | single utc =>
      have hutc := h value utc (.here value) ((reading_single hvalue utc).mpr rfl)
      rw [resolve_single hvalue, if_neg (by omega)]
    | ambiguous early late =>
      obtain ⟨hlt, hreadings⟩ := reading_ambiguous hvalue
      have hlate := h value late (.here value) ((hreadings late).mpr (.inr rfl))
      rw [resolve_ambiguous hvalue, if_neg (by omega), if_neg (by omega)]
    | none =>
      rw [resolve_none hvalue, List.findSome?_eq_none_iff]
      intro minutes hminutes
      apply ih hvalue
      intro found utc hfound
      exact h found utc (.gap hvalue (List.mem_range.mp hminutes) hfound)

/-- An occurrence has the local time asked for, or a later one. -/
theorem le_occurrence (tz : Timezone) (value : ℤ) : value ≤ tz.toLocal (occurrence tz value) := by
  induction value using search_induction tz with
  | h value ih =>
    cases hvalue : tz.fromLocalDatetime value with
    | single utc =>
      rw [occurrence_single hvalue, (reading_single hvalue utc).mpr rfl]
    | ambiguous early late =>
      rw [occurrence_ambiguous hvalue, ((reading_ambiguous hvalue).2 early).mpr (.inl rfl)]
    | none =>
      rw [occurrence_none hvalue]
      exact (lt_shifted value 0).le.trans (ih hvalue 0)

end Resolve

namespace ScheduledTaskConfig
variable (config : ScheduledTaskConfig)

/-- The instant at which the task is due on a date. -/
def due (date : ℤ) : ℤ := occurrence config.timezone (config.scheduledAt date)

section Search
variable {config} {after date utc : ℤ} {passes : ℕ}

theorem searchDates_found (hvalid : validateScheduleConfig config = .ok ())
    (hmatches : config.Matches date)
    (h : resolveLocalDatetime config.timezone after (config.scheduledAt date) = some utc) :
    config.searchDates after (passes + 1) date = .ok utc := by
  rw [searchDates]
  unfold validateScheduleConfig at hvalid
  unfold Matches at hmatches
  cases hkind : config.scheduleKind with
  | daily => simp only [h]
  | weekly =>
    cases hweekday : config.weekday with
    | none => simp [hkind, hweekday] at hvalid
    | some weekday => simp [h, hmatches hkind weekday hweekday]

theorem searchDates_passed (hvalid : validateScheduleConfig config = .ok ())
    (h : config.Matches date →
      resolveLocalDatetime config.timezone after (config.scheduledAt date) = none) :
    config.searchDates after (passes + 1) date = config.searchDates after passes (date + 1) := by
  rw [searchDates]
  unfold validateScheduleConfig at hvalid
  unfold Matches at h
  cases hkind : config.scheduleKind with
  | daily => simp [h (by simp [hkind])]
  | weekly =>
    cases hweekday : config.weekday with
    | none => simp [hkind, hweekday] at hvalid
    | some weekday =>
      by_cases hdate : weekdayOf date = weekdayFromI32 weekday
      · simp [hdate, h (by simp [hweekday, hdate])]
      · simp [hdate]

theorem searchDates_first (hvalid : validateScheduleConfig config = .ok ()) {skipped : ℕ}
    (hskipped : ∀ n < skipped, config.Matches (date + n) →
      resolveLocalDatetime config.timezone after (config.scheduledAt (date + n)) = none)
    (hmatches : config.Matches (date + skipped))
    (h : resolveLocalDatetime config.timezone after (config.scheduledAt (date + skipped)) = some utc)
    (hpasses : skipped < passes) : config.searchDates after passes date = .ok utc := by
  induction skipped generalizing date passes with
  | zero =>
    obtain ⟨rest, rfl⟩ : ∃ rest, passes = rest + 1 := ⟨passes - 1, by omega⟩
    have hzero : date + (0 : ℕ) = date := by omega
    rw [hzero] at hmatches h
    exact searchDates_found hvalid hmatches h
  | succ skipped ih =>
    obtain ⟨rest, rfl⟩ : ∃ rest, passes = rest + 1 := ⟨passes - 1, by omega⟩
    have hshift : ∀ n : ℕ, date + 1 + n = date + (n + 1 : ℕ) := fun n => by omega
    have hfirst := hskipped 0 (by omega)
    have hzero : date + (0 : ℕ) = date := by omega
    rw [hzero] at hfirst
    rw [searchDates_passed hvalid hfirst]
    apply ih
    · intro n hn
      rw [hshift]
      exact hskipped (n + 1) (by omega)
    · rwa [hshift]
    · rwa [hshift]
    · omega

theorem exists_matches (hvalid : validateScheduleConfig config = .ok ()) (date : ℤ) :
    ∃ n : ℕ, n < 7 ∧ config.Matches (date + n) := by
  unfold validateScheduleConfig at hvalid
  unfold Matches
  cases hkind : config.scheduleKind with
  | daily => exact ⟨0, by omega, by simp⟩
  | weekly =>
    cases hweekday : config.weekday with
    | none => simp [hkind, hweekday] at hvalid
    | some weekday =>
      have hrange : 1 ≤ weekday ∧ weekday ≤ 7 := by simpa [hkind, hweekday] using hvalid
      have hsame : weekdayFromI32 weekday = weekday := by
        unfold weekdayFromI32
        split <;> omega
      refine ⟨((weekday - weekdayOf date) % 7).toNat, ?_, ?_⟩
      · omega
      · intro _ other hother
        obtain rfl : weekday = other := by simpa using hother
        rw [hsame]
        unfold weekdayOf
        omega

theorem lt_due_far (h : config.localDate after + 3 ≤ date) : after < config.due date := by
  have hdue : config.scheduledAt date ≤ config.timezone.toLocal (config.due date) :=
    le_occurrence config.timezone (config.scheduledAt date)
  have hoffset := config.timezone.offset_bounded after
  have hoffset' := config.timezone.offset_bounded (config.due date)
  unfold localDate at h
  unfold scheduledAt at hdue
  unfold Timezone.toLocal at h hdue
  unfold day minute at *
  omega

/-- The reference instant is clear of the changes of the timezone: no reading of a scheduled time that has
come to pass is still looked at, and the dates to come are due one after another. -/
structure Settled (config : ScheduledTaskConfig) (after : ℤ) : Prop where
  due_le : ∀ date < config.localDate after, config.Matches date → config.due date ≤ after
  past : ∀ date, config.localDate after ≤ date → config.Matches date → config.due date ≤ after →
    Past config.timezone after (config.scheduledAt date)
  ordered : ∀ date other, config.localDate after ≤ date → date < other → config.Matches date →
    config.Matches other → after < config.due date → config.due date < config.due other

theorem Settled.due_lt (h : Settled config after) {other : ℤ} (hmatches : config.Matches date)
    (hother : config.Matches other) (hdue : after < config.due date) (hlt : date < other) :
    config.due date < config.due other := by
  apply h.ordered date other _ hlt hmatches hother hdue
  by_contra hbefore
  have hpassed := h.due_le date (by omega) hmatches
  omega

theorem exists_coming (hvalid : validateScheduleConfig config = .ok ()) (after : ℤ) :
    ∃ n : ℕ, n < 10 ∧ config.Matches (config.localDate after + n) ∧
      after < config.due (config.localDate after + n) := by
  obtain ⟨n, hn, hmatches⟩ := exists_matches hvalid (config.localDate after + 3)
  have hdate : config.localDate after + 3 + n = config.localDate after + (n + 3 : ℕ) := by omega
  rw [hdate] at hmatches
  exact ⟨n + 3, by omega, hmatches, lt_due_far (by omega)⟩

/-- The dates on which the task is due, as instants. -/
def dueInstants (config : ScheduledTaskConfig) : Set ℤ :=
  {utc | ∃ date, config.Matches date ∧ config.due date = utc}

theorem computeNextRunAt_settled (hvalid : validateScheduleConfig config = .ok ())
    (h : Settled config after) (hcompute : config.computeNextRunAt after = .ok utc) :
    IsLeast {due ∈ config.dueInstants | after < due} utc := by
  have hexists := exists_coming hvalid after
  obtain ⟨hbound, hmatches, hcoming⟩ := Nat.find_spec hexists
  have hfirst := fun n (hn : n < Nat.find hexists) => Nat.find_min hexists hn
  generalize Nat.find hexists = found at hbound hmatches hcoming hfirst
  have hpassed : ∀ n < found, config.Matches (config.localDate after + n) →
      config.due (config.localDate after + n) ≤ after := by
    intro n hn hdate
    by_contra hlate
    exact hfirst n hn ⟨by omega, hdate, by omega⟩
  have hfound : config.computeNextRunAt after = .ok (config.due (config.localDate after + found)) := by
    unfold computeNextRunAt
    apply searchDates_first hvalid _ hmatches (resolve_occurrence hcoming) (by omega)
    intro n hn hdate
    exact resolve_past (h.past _ (by omega) hdate (hpassed n hn hdate))
  obtain rfl : config.due (config.localDate after + found) = utc := by
    rw [hfound] at hcompute
    exact Except.ok.inj hcompute
  constructor
  · exact ⟨⟨_, hmatches, rfl⟩, hcoming⟩
  · rintro due ⟨⟨date, hdate, rfl⟩, hdue⟩
    have hlater : config.localDate after + found ≤ date := by
      by_contra hbefore
      have hstart : config.localDate after ≤ date := by
        by_contra hearlier
        have hdone := h.due_le date (by omega) hdate
        omega
      obtain ⟨n, hn⟩ : ∃ n : ℕ, date = config.localDate after + n :=
        ⟨(date - config.localDate after).toNat, by omega⟩
      rw [hn] at hdate hdue
      have hdone := hpassed n (by omega) hdate
      omega
    rcases hlater.eq_or_lt with heq | hlt
    · rw [heq]
    · exact (h.due_lt hmatches hdate hcoming hlt).le

/-- Times computed one after another, each from an instant before the following one. -/
structure Recurs (config : ScheduledTaskConfig) (after runs : ℕ → ℤ) : Prop where
  computed : ∀ i, config.computeNextRunAt (after i) = .ok (runs i)
  le_after : ∀ i, runs i ≤ after (i + 1)
  after_lt : ∀ i date, config.Matches date → runs i < config.due date →
    after (i + 1) < config.due date

/-- Every matching date that is due after the start has one of the times, which increase. -/
def OncePerDate (config : ScheduledTaskConfig) (start : ℤ) (runs : ℕ → ℤ) : Prop :=
  StrictMono runs ∧ ∃ dates : ℕ → ℤ,
    (∀ i, config.Matches (dates i) ∧ runs i = config.due (dates i)) ∧
    ∀ date, config.Matches date → start < config.due date → ∃! i, dates i = date

theorem Recurs.successive {after runs : ℕ → ℤ} (hvalid : validateScheduleConfig config = .ok ())
    (h : Recurs config after runs) (hsettled : ∀ i, Settled config (after i)) :
    Lib.Successive config.dueInstants after runs where
  isLeast i := computeNextRunAt_settled hvalid (hsettled i) (h.computed i)
  le_start := h.le_after
  start_lt i := by
    rintro due ⟨date, hdate, rfl⟩ hdue
    exact h.after_lt i date hdate hdue

/-- A task whose reference instants are clear of the changes of its timezone recurs once per date. -/
theorem recurs_oncePerDate {after runs : ℕ → ℤ} (hvalid : validateScheduleConfig config = .ok ())
    (h : Recurs config after runs) (hsettled : ∀ i, Settled config (after i)) :
    OncePerDate config (after 0) runs := by
  have hsuccessive := h.successive hvalid hsettled
  choose dates hdates using fun i => (hsuccessive.isLeast i).1.1
  refine ⟨hsuccessive.strictMono, dates, fun i => ⟨(hdates i).1, (hdates i).2.symm⟩, ?_⟩
  intro date hdate hdue
  obtain ⟨i, hi⟩ := (hsuccessive.mem_range_iff (config.due date)).mpr ⟨⟨date, hdate, rfl⟩, hdue⟩
  have hcoming : after i < config.due date := hi ▸ (hsuccessive.isLeast i).1.2
  have hsame : config.due (dates i) = config.due date := (hdates i).2.trans hi
  refine ⟨i, ?_, ?_⟩
  · -- two dates to come are due at different times
    rcases lt_trichotomy (dates i) date with hlt | heq | hlt
    · have hearlier := (hsettled i).due_lt (hdates i).1 hdate (by omega) hlt
      omega
    · exact heq
    · have hearlier := (hsettled i).due_lt hdate (hdates i).1 hcoming hlt
      omega
  · intro j hj
    apply hsuccessive.strictMono.injective
    rw [← (hdates j).2, hj, hi]

theorem computeNextRunAt_ok (hvalid : validateScheduleConfig config = .ok ()) (after : ℤ) :
    ∃ utc, config.computeNextRunAt after = .ok utc := by
  obtain ⟨n, hn, hmatches, hcoming⟩ := exists_coming hvalid after
  have hexists : ∃ n : ℕ, n < 10 ∧ config.Matches (config.localDate after + n) ∧
      resolveLocalDatetime config.timezone after (config.scheduledAt (config.localDate after + n)) ≠
        none :=
    ⟨n, hn, hmatches, by rw [resolve_occurrence hcoming]; simp⟩
  obtain ⟨hbound, hfound, hresolved⟩ := Nat.find_spec hexists
  obtain ⟨utc, hutc⟩ := Option.ne_none_iff_exists'.mp hresolved
  have hfirst := fun n (hn : n < Nat.find hexists) => Nat.find_min hexists hn
  refine ⟨utc, searchDates_first hvalid ?_ hfound hutc (by omega)⟩
  intro skipped hskipped hdate
  by_contra hsome
  exact hfirst skipped hskipped ⟨by omega, hdate, hsome⟩

/-- Times can be computed from every start, each from the one before. -/
theorem exists_recurs (hvalid : validateScheduleConfig config = .ok ()) (start : ℤ) :
    ∃ after runs, Recurs config after runs ∧ after 0 = start ∧ ∀ i, after (i + 1) = runs i := by
  choose compute hcompute using computeNextRunAt_ok hvalid
  let after : ℕ → ℤ := fun i => compute^[i] start
  have hafter : ∀ i, after (i + 1) = compute (after i) := fun i =>
    Function.iterate_succ_apply' compute i start
  refine ⟨after, fun i => compute (after i), ⟨fun i => hcompute (after i), ?_, ?_⟩, rfl, hafter⟩
  · intro i
    rw [hafter]
  · intro i date _ hdue
    rwa [hafter]

/-- Without changes of the offset every reference instant is clear of them. -/
theorem settled_of_constant {shift : ℤ} (h : ∀ utc, config.timezone.offset utc = shift) (after : ℤ) :
    Settled config after := by
  have hsingle : ∀ value, config.timezone.fromLocalDatetime value = .single (value - shift) := by
    intro value
    have hreading : config.timezone.toLocal (value - shift) = value := by
      unfold Timezone.toLocal
      rw [h]
      omega
    cases hvalue : config.timezone.fromLocalDatetime value with
    | none =>
      have hnone := config.timezone.resolves value
      rw [hvalue] at hnone
      exact absurd hreading (hnone _)
    | single utc => rw [(reading_single hvalue _).mp hreading]
    | ambiguous early late =>
      obtain ⟨hlt, hreadings⟩ := reading_ambiguous hvalue
      have hearly := (hreadings early).mpr (.inl rfl)
      have hlate := (hreadings late).mpr (.inr rfl)
      unfold Timezone.toLocal at hearly hlate
      rw [h] at hearly hlate
      omega
  have hdue : ∀ date, config.due date = config.scheduledAt date - shift := fun date =>
    occurrence_single (hsingle _)
  have htime := config.timeOfDay.isLt
  constructor
  · intro date hdate _
    rw [hdue]
    unfold localDate Timezone.toLocal at hdate
    rw [h] at hdate
    unfold scheduledAt
    unfold day minute at *
    omega
  · intro date _ _ hpassed found utc hsearched hlocal
    rw [hdue] at hpassed
    cases hsearched with
    | here =>
      unfold Timezone.toLocal at hlocal
      rw [h] at hlocal
      omega
    | gap hgap => simp [hsingle] at hgap
  · intro date other _ hlt _ _ _
    rw [hdue, hdue]
    unfold scheduledAt day minute
    omega

end Search

end ScheduledTaskConfig

def daily (timeOfDay : Fin 1440) (timezone : Timezone) : ScheduledTaskConfig :=
  { scheduleKind := .daily, timeOfDay, weekday := none, timezone }

/-- A timezone with one change of its offset. -/
def Timezone.changing (change before after : ℤ) (hbefore : -day < before ∧ before < day)
    (hafter : -day < after ∧ after < day) : Timezone where
  offset utc := if utc < change then before else after
  settled := change
  fromLocalDatetime value :=
    if value - before < change then
      if change ≤ value - after then .ambiguous (value - before) (value - after)
      else .single (value - before)
    else if change ≤ value - after then .single (value - after) else .none
  offset_settled utc h := by
    rw [if_neg (by omega), if_neg (by omega)]
  offset_bounded utc := by
    split <;> assumption
  resolves value := by
    by_cases hearly : value - before < change <;> by_cases hlate : change ≤ value - after
    · simp only [hearly, hlate, if_true]
      refine ⟨by omega, fun utc => ?_⟩
      split <;> omega
    · simp only [hearly, hlate, if_true, if_false]
      intro utc
      split <;> omega
    · simp only [hearly, hlate, if_true, if_false]
      intro utc
      split <;> omega
    · simp only [hearly, hlate, if_false]
      intro utc
      split <;> omega

/-- Half past two, every day. In the night of date 0 the hour from two to three is read twice. -/
def nightly : ScheduledTaskConfig :=
  daily 150 (.changing (120 * minute) (60 * minute) 0 (by decide) (by decide))

theorem nightly_reading (date : ℤ) :
    nightly.timezone.fromLocalDatetime (nightly.scheduledAt date) =
      if date < 0 then .single (date * day + 90 * minute)
      else if date = 0 then .ambiguous (90 * minute) (150 * minute)
      else .single (date * day + 150 * minute) := by
  have hscheduled : nightly.scheduledAt date = date * day + 150 * minute := rfl
  rw [hscheduled]
  change (if _ then if _ then LocalResult.ambiguous _ _ else .single _ else if _ then .single _ else .none) = _
  unfold day minute
  rcases lt_trichotomy date 0 with h | rfl | h
  · rw [if_pos (by omega), if_neg (by omega), if_pos h]
    congr 1
    omega
  · rfl
  · rw [if_neg (by omega), if_pos (by omega), if_neg (by omega), if_neg (by omega)]
    congr 1
    omega

theorem nightly_due (date : ℤ) :
    nightly.due date = if date ≤ 0 then date * day + 90 * minute else date * day + 150 * minute := by
  have hreading := nightly_reading date
  unfold ScheduledTaskConfig.due
  rcases lt_trichotomy date 0 with h | rfl | h
  · rw [if_pos h] at hreading
    rw [occurrence_single hreading, if_pos (by omega)]
  · exact (occurrence_ambiguous hreading).trans rfl
  · rw [if_neg (by omega), if_neg (by omega)] at hreading
    rw [occurrence_single hreading, if_neg (by omega)]

def noonBefore (date : ℤ) : ℤ := date * day - 720 * minute

theorem nightly_offset (utc : ℤ) :
    nightly.timezone.toLocal utc = if utc < 120 * minute then utc + 60 * minute else utc := by
  change utc + (if utc < 120 * minute then 60 * minute else 0) = _
  split <;> omega

theorem nightly_localDate (date : ℤ) : nightly.localDate (noonBefore date) = date - 1 := by
  unfold ScheduledTaskConfig.localDate
  rw [nightly_offset]
  unfold noonBefore day minute
  split <;> omega

/-- At noon both readings of the night have come to pass. -/
theorem nightly_settled (date : ℤ) : ScheduledTaskConfig.Settled nightly (noonBefore date) := by
  have hdate := nightly_localDate date
  constructor
  · intro other hother _
    rw [nightly_due]
    unfold noonBefore day minute
    split <;> omega
  · intro other hother _ hdue found utc hsearched hlocal
    rw [nightly_due] at hdue
    rw [nightly_offset] at hlocal
    have hreading := nightly_reading other
    cases hsearched with
    | here =>
      have hscheduled : nightly.scheduledAt other = other * day + 150 * minute := rfl
      rw [hscheduled] at hlocal
      unfold noonBefore day minute at *
      split at hdue <;> split at hlocal <;> omega
    | gap hgap =>
      rw [hgap] at hreading
      split at hreading
      · cases hreading
      · split at hreading <;> cases hreading
  · intro first second _ hlt _ _ _
    rw [nightly_due, nightly_due]
    unfold day minute
    split <;> split <;> omega

/-- Computed at noon, the task runs once in the night in which its time is read twice. -/
theorem recurs_oncePerDate_noon : ∃ after runs, nightly.Recurs after runs ∧
    after 0 = -(720 * minute) ∧ runs 0 = 90 * minute ∧ runs 1 = day + 150 * minute ∧
    nightly.OncePerDate (after 0) runs := by
  have hvalid : validateScheduleConfig nightly = .ok () := rfl
  have hmatches : ∀ date, nightly.Matches date := fun _ h => absurd h (by decide)
  have hsettled := fun i : ℕ => nightly_settled i
  choose compute hcompute using ScheduledTaskConfig.computeNextRunAt_ok hvalid
  let runs := fun i : ℕ => compute (noonBefore i)
  have hleast := fun i : ℕ => ScheduledTaskConfig.computeNextRunAt_settled hvalid (hsettled i)
    (hcompute (noonBefore i))
  have hruns : ∀ i : ℕ, runs i = nightly.due i := by
    intro i
    apply (hleast i).unique
    constructor
    · refine ⟨⟨i, hmatches i, rfl⟩, ?_⟩
      rw [nightly_due]
      unfold noonBefore day minute
      split <;> omega
    · rintro _ ⟨⟨date, _, rfl⟩, hdue⟩
      rw [nightly_due] at hdue ⊢
      rw [nightly_due]
      unfold noonBefore at hdue
      unfold day minute at *
      split at hdue <;> split <;> omega
  have hrecurs : nightly.Recurs (fun i => noonBefore i) runs := by
    constructor
    · exact fun i => hcompute (noonBefore i)
    · intro i
      rw [hruns, nightly_due]
      unfold noonBefore day minute
      split <;> omega
    · intro i date _ hlt
      rw [hruns, nightly_due, nightly_due] at hlt
      rw [nightly_due]
      unfold noonBefore day minute at *
      split at hlt <;> split at hlt <;> omega
  refine ⟨_, runs, hrecurs, rfl, ?_, ?_, ScheduledTaskConfig.recurs_oncePerDate hvalid hrecurs hsettled⟩
  · exact (hruns 0).trans ((nightly_due 0).trans rfl)
  · exact (hruns 1).trans ((nightly_due 1).trans rfl)

/-- At half past two, in the night in which the hour from two to three is read twice, both readings run. -/
theorem ambiguous_date_runs_twice :
    let config := daily 150
      (.changing (120 * minute) (60 * minute) 0 (by decide) (by decide))
    ∃ after runs, validateScheduleConfig config = .ok () ∧ config.Recurs after runs ∧ after 0 = 0 ∧
      runs 0 = 90 * minute ∧ runs 1 = 150 * minute ∧ ¬ config.OncePerDate (after 0) runs := by
  intro config
  have hvalid : validateScheduleConfig config = .ok () := rfl
  have hreadings : config.timezone.fromLocalDatetime (config.scheduledAt 0) =
      .ambiguous (90 * minute) (150 * minute) := by decide
  obtain ⟨after, runs, hrecurs, hstart, hafter⟩ := ScheduledTaskConfig.exists_recurs hvalid 0
  have hmatches : config.Matches 0 := by decide
  have hfirst : config.computeNextRunAt (after 0) = .ok (90 * minute) := by
    rw [hstart]
    apply ScheduledTaskConfig.searchDates_found hvalid hmatches
    rw [resolve_ambiguous hreadings]
    decide
  have hzero : runs 0 = 90 * minute := Except.ok.inj ((hrecurs.computed 0).symm.trans hfirst)
  have hsecond : config.computeNextRunAt (after 1) = .ok (150 * minute) := by
    rw [hafter 0, hzero]
    apply ScheduledTaskConfig.searchDates_found hvalid hmatches
    rw [resolve_ambiguous hreadings]
    decide
  have hone : runs 1 = 150 * minute := Except.ok.inj ((hrecurs.computed 1).symm.trans hsecond)
  refine ⟨after, runs, hvalid, hrecurs, hstart, hzero, hone, ?_⟩
  rintro ⟨-, dates, hdates, -⟩
  -- no date is due at the second reading
  have hdue := (hdates 1).2
  have hreached := le_occurrence config.timezone (config.scheduledAt (dates 1))
  rw [hone] at hdue
  change config.scheduledAt (dates 1) ≤ config.timezone.toLocal (config.due (dates 1)) at hreached
  have hlocal : config.timezone.toLocal (150 * minute) = 150 * minute := by decide
  have hscheduled : ∀ date, config.scheduledAt date = date * day + 150 * minute := fun _ => rfl
  rw [← hdue, hlocal, hscheduled] at hreached
  rcases (show dates 1 = 0 ∨ dates 1 < 0 by unfold day minute at hreached; omega) with heq | hlt
  · have hearly : config.due 0 = 90 * minute := occurrence_ambiguous hreadings
    rw [heq, hearly] at hdue
    exact absurd hdue (by decide)
  · have hsingle : config.timezone.fromLocalDatetime (config.scheduledAt (dates 1)) =
        .single (config.scheduledAt (dates 1) - 60 * minute) := by
      rw [hscheduled]
      show (if _ then _ else _) = _
      unfold day minute at *
      rw [if_pos (by omega), if_neg (by omega)]
    have hlate : config.due (dates 1) = _ := occurrence_single hsingle
    rw [← hdue, hscheduled] at hlate
    unfold day minute at hlate
    omega

end VibeKanban.Schedule
