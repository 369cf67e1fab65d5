import VibeKanban.Orchestration.Plan

/-! The laws of joins: the order of the sources does not count, and what sources that finish later can
still change. -/
namespace VibeKanban.Orchestration

variable {policy : OrchestrationJoinPolicy} {failurePolicy : OrchestrationFailurePolicy}
  {remaining : RemainingUpstreamsPolicy} {statuses statuses' : List OrchestrationNodeStatus}

def IsFailure (status : OrchestrationNodeStatus) : Prop := status = .failed ∨ status = .cancelled

/-- Some of the sources that were not terminal have become so. -/
def Finishes : List OrchestrationNodeStatus → List OrchestrationNodeStatus → Prop :=
  List.Forall₂ fun before after =>
    after = before ∨ isTerminalNode before = false ∧ isTerminalNode after = true

theorem evaluateJoin_perm (h : statuses.Perm statuses') :
    evaluateJoin policy failurePolicy remaining statuses =
      evaluateJoin policy failurePolicy remaining statuses' := by
  have hempty : statuses.isEmpty = statuses'.isEmpty := by
    rw [Bool.eq_iff_iff, List.isEmpty_iff, List.isEmpty_iff]
    exact ⟨fun hnil => (hnil ▸ h).nil_eq.symm, fun hnil => (hnil ▸ h).eq_nil⟩
  have hterminal : statuses.all isTerminalNode = statuses'.all isTerminalNode := h.all_eq
  have hfailure : (statuses.any fun status => status = .failed || status = .cancelled) =
      statuses'.any fun status => status = .failed || status = .cancelled := h.any_eq
  simp only [evaluateJoin, hempty, h.countP_eq, hterminal, hfailure, h.length_eq]

section Finish
variable (h : Finishes statuses statuses')
include h

theorem Finishes.isEmpty : statuses'.isEmpty = statuses.isEmpty := by
  cases h with
  | nil => rfl
  | cons _ _ => rfl

/-- A terminal source keeps its status. -/
theorem Finishes.mem_terminal {status : OrchestrationNodeStatus} (hmem : status ∈ statuses)
    (hterminal : isTerminalNode status = true) : status ∈ statuses' := by
  induction h with
  | nil => exact absurd hmem List.not_mem_nil
  | cons hhead _ ih =>
    rcases List.mem_cons.mp hmem with rfl | htail
    · rcases hhead with rfl | ⟨hopen, _⟩
      · exact List.mem_cons_self
      · rw [hterminal] at hopen
        contradiction
    · exact List.mem_cons_of_mem _ (ih htail)

theorem Finishes.eq_of_terminal (hterminal : statuses.all isTerminalNode = true) :
    statuses' = statuses := by
  induction h with
  | nil => rfl
  | cons hhead _ ih =>
    rw [List.all_cons, Bool.and_eq_true] at hterminal
    obtain ⟨hfirst, hrest⟩ := hterminal
    rcases hhead with rfl | ⟨hopen, _⟩
    · rw [ih hrest]
    · rw [hfirst] at hopen
      contradiction

theorem Finishes.successful (hcount : 0 < statuses.countP (· = .succeeded)) :
    0 < statuses'.countP (· = .succeeded) := by
  rw [List.countP_pos_iff] at hcount ⊢
  obtain ⟨status, hmem, hsucceeded⟩ := hcount
  rw [decide_eq_true_eq] at hsucceeded
  subst hsucceeded
  exact ⟨_, h.mem_terminal hmem rfl, by simp⟩

theorem Finishes.hasFailure
    (hfailure : (statuses.any fun status => status = .failed || status = .cancelled) = true) :
    (statuses'.any fun status => status = .failed || status = .cancelled) = true := by
  rw [List.any_eq_true] at hfailure ⊢
  obtain ⟨status, hmem, hfailed⟩ := hfailure
  refine ⟨status, h.mem_terminal hmem ?_, hfailed⟩
  rw [Bool.or_eq_true, decide_eq_true_eq, decide_eq_true_eq] at hfailed
  rcases hfailed with rfl | rfl
  · rfl
  · rfl

end Finish

/-- What decides a join while a source is not terminal: a failure that ends it at once, or a success that
is enough. -/
theorem evaluateJoin_open (hne : statuses ≠ []) (hopen : statuses.all isTerminalNode = false) :
    evaluateJoin policy failurePolicy remaining statuses =
      if policy ≠ .any ∧ failurePolicy = .failFast ∧
          (statuses.any fun status => status = .failed || status = .cancelled) = true then .failed
      else if policy ≠ .all ∧ 0 < statuses.countP (· = .succeeded) then
        if policy = .any ∧ remaining = .cancelRemaining then .readyAndCancelRemaining else .ready
      else .waiting := by
  have hempty : statuses.isEmpty = false := by rwa [List.isEmpty_eq_false_iff]
  unfold evaluateJoin
  simp only [hempty, hopen]
  cases policy with
  | all => simp
  | any => simp
  | each => simp

/-- Terminal sources decide a join. -/
theorem evaluateJoin_terminal (hne : statuses ≠ []) (hterminal : statuses.all isTerminalNode = true) :
    evaluateJoin policy failurePolicy remaining statuses ≠ .waiting := by
  have hempty : statuses.isEmpty = false := by rwa [List.isEmpty_eq_false_iff]
  unfold evaluateJoin
  simp only [hempty, hterminal]
  cases policy with
  | all =>
    simp only [Bool.not_true, Bool.false_eq_true, if_false]
    split_ifs <;> exact fun h => nomatch h
  | any =>
    simp only [Bool.false_eq_true, if_false, if_true]
    split_ifs <;> exact fun h => nomatch h
  | each =>
    simp only [Bool.false_eq_true, if_false, if_true]
    split_ifs <;> exact fun h => nomatch h

theorem Finishes.ne_nil (h : Finishes statuses statuses') (hne : statuses ≠ []) : statuses' ≠ [] := by
  rw [← List.isEmpty_eq_false_iff] at hne ⊢
  rw [h.isEmpty, hne]

/-- A join that was decided does not wait again. -/
theorem Finishes.decided (h : Finishes statuses statuses')
    (hdecided : evaluateJoin policy failurePolicy remaining statuses ≠ .waiting) :
    evaluateJoin policy failurePolicy remaining statuses' ≠ .waiting := by
  have hne : statuses ≠ [] := by
    rintro rfl
    exact hdecided rfl
  by_cases hterminal' : statuses'.all isTerminalNode = true
  · exact evaluateJoin_terminal (h.ne_nil hne) hterminal'
  · have hterminal : ¬ statuses.all isTerminalNode = true :=
      fun hall => hterminal' (h.eq_of_terminal hall ▸ hall)
    rw [evaluateJoin_open hne (Bool.eq_false_of_not_eq_true hterminal)] at hdecided
    rw [evaluateJoin_open (h.ne_nil hne) (Bool.eq_false_of_not_eq_true hterminal')]
    by_cases hfailed : policy ≠ .any ∧ failurePolicy = .failFast ∧
        (statuses.any fun status => status = .failed || status = .cancelled) = true
    · rw [if_pos ⟨hfailed.1, hfailed.2.1, h.hasFailure hfailed.2.2⟩]
      exact fun h => nomatch h
    · rw [if_neg hfailed] at hdecided
      by_cases hready : policy ≠ .all ∧ 0 < statuses.countP (· = .succeeded)
      · have hready' : policy ≠ .all ∧ 0 < statuses'.countP (· = .succeeded) :=
          ⟨hready.1, h.successful hready.2⟩
        rw [if_pos hready']
        split_ifs <;> exact fun h => nomatch h
      · rw [if_neg hready] at hdecided
        exact absurd rfl hdecided

theorem evaluateJoin_any (hne : statuses ≠ []) :
    evaluateJoin .any failurePolicy remaining statuses =
      if 0 < statuses.countP (· = .succeeded) then
        if remaining = .cancelRemaining then .readyAndCancelRemaining else .ready
      else if statuses.all isTerminalNode = true then .failed else .waiting := by
  have hempty : statuses.isEmpty = false := by rwa [List.isEmpty_eq_false_iff]
  unfold evaluateJoin
  simp only [hempty]
  rfl

/-- The decision of a decided join of any source stays. -/
theorem Finishes.any (h : Finishes statuses statuses')
    (hdecided : evaluateJoin .any failurePolicy remaining statuses ≠ .waiting) :
    evaluateJoin .any failurePolicy remaining statuses' =
      evaluateJoin .any failurePolicy remaining statuses := by
  have hne : statuses ≠ [] := by
    rintro rfl
    exact hdecided rfl
  by_cases hterminal : statuses.all isTerminalNode = true
  · rw [h.eq_of_terminal hterminal]
  · rw [evaluateJoin_any hne] at hdecided ⊢
    rw [evaluateJoin_any (h.ne_nil hne)]
    by_cases hsuccess : 0 < statuses.countP (· = .succeeded)
    · rw [if_pos hsuccess, if_pos (h.successful hsuccess)]
    · rw [if_neg hsuccess, if_neg hterminal] at hdecided
      exact absurd rfl hdecided

/-- A failure ends a join at once, if it may. -/
theorem evaluateJoin_failFast (hpolicy : policy ≠ .any) {status : OrchestrationNodeStatus}
    (hmem : status ∈ statuses) (hfailure : IsFailure status) :
    evaluateJoin policy .failFast remaining statuses = .failed := by
  have hempty : statuses.isEmpty = false := by
    rw [List.isEmpty_eq_false_iff]
    exact List.ne_nil_of_mem hmem
  have hany : (statuses.any fun status => status = .failed || status = .cancelled) = true := by
    refine List.any_eq_true.mpr ⟨status, hmem, ?_⟩
    rcases hfailure with rfl | rfl
    · rfl
    · rfl
  unfold evaluateJoin
  simp only [hempty, hany]
  cases policy with
  | all => simp
  | any => exact absurd rfl hpolicy
  | each => simp

theorem evaluateJoin_all (hne : statuses ≠ []) :
    evaluateJoin .all failurePolicy remaining statuses =
      if failurePolicy = .failFast ∧
          (statuses.any fun status => status = .failed || status = .cancelled) = true then .failed
      else if statuses.all isTerminalNode = false then .waiting
      else if statuses.countP (· = .succeeded) = statuses.length then .ready
      else if failurePolicy = .allowPartial ∧ 0 < statuses.countP (· = .succeeded) then .ready
      else .failed := by
  have hempty : statuses.isEmpty = false := by rwa [List.isEmpty_eq_false_iff]
  unfold evaluateJoin
  simp [hempty]

theorem evaluateJoin_all_ready :
    evaluateJoin .all .failFast remaining statuses = .ready ↔
      statuses ≠ [] ∧ ∀ status ∈ statuses, status = .succeeded := by
  constructor
  · intro hready
    have hne : statuses ≠ [] := by
      rintro rfl
      exact nomatch hready
    rw [evaluateJoin_all hne] at hready
    by_cases hall : statuses.countP (· = .succeeded) = statuses.length
    · exact ⟨hne, by simpa using List.countP_eq_length.mp hall⟩
    · simp only [hall, reduceCtorEq, false_and, if_false] at hready
      split_ifs at hready
  · rintro ⟨hne, hall⟩
    have hterminal : statuses.all isTerminalNode = true :=
      List.all_eq_true.mpr fun status hmem => by rw [hall status hmem]; rfl
    have hfailure : (statuses.any fun status => status = .failed || status = .cancelled) = false := by
      refine List.any_eq_false.mpr fun status hmem => ?_
      rw [hall status hmem]
      decide
    have hcount : statuses.countP (· = .succeeded) = statuses.length :=
      List.countP_eq_length.mpr fun status hmem => by simp [hall status hmem]
    rw [evaluateJoin_all hne]
    simp [hterminal, hfailure, hcount]

/-- A failed join of all sources does not become ready. -/
theorem Finishes.all (h : Finishes statuses statuses')
    (hfailed : evaluateJoin .all failurePolicy remaining statuses = .failed) :
    evaluateJoin .all failurePolicy remaining statuses' = .failed := by
  by_cases hterminal : statuses.all isTerminalNode = true
  · rw [h.eq_of_terminal hterminal, hfailed]
  · have hne : statuses ≠ [] := fun hnil => hterminal (hnil ▸ rfl)
    rw [evaluateJoin_open hne (Bool.eq_false_of_not_eq_true hterminal)] at hfailed
    split_ifs at hfailed with hfailure
    obtain ⟨_, rfl, hany⟩ := hfailure
    obtain ⟨status, hmem, hstatus⟩ := List.any_eq_true.mp (h.hasFailure hany)
    exact evaluateJoin_failFast (fun h => nomatch h) hmem (by simpa [IsFailure] using hstatus)

/-- The order of the sources does not count; sources that finish never make a decided join wait; a
fail-fast join of all sources is ready when there are sources and all succeeded, and no fail-fast join of
all or of each source is ready with a failure; sources that finish never change the decision of a join of
any source, and never make a failed join of all sources ready. -/
theorem evaluateJoin_lawful :
    (∀ policy failurePolicy remaining statuses statuses', List.Perm statuses statuses' →
      evaluateJoin policy failurePolicy remaining statuses =
        evaluateJoin policy failurePolicy remaining statuses') ∧
    (∀ policy failurePolicy remaining statuses statuses', Finishes statuses statuses' →
      evaluateJoin policy failurePolicy remaining statuses ≠ .waiting →
        evaluateJoin policy failurePolicy remaining statuses' ≠ .waiting) ∧
    (∀ remaining statuses, evaluateJoin .all .failFast remaining statuses = .ready ↔
      statuses ≠ [] ∧ ∀ status ∈ statuses, status = .succeeded) ∧
    (∀ policy remaining statuses, policy ≠ .any → (∃ status ∈ statuses, IsFailure status) →
      evaluateJoin policy .failFast remaining statuses ≠ .ready ∧
        evaluateJoin policy .failFast remaining statuses ≠ .readyAndCancelRemaining) ∧
    (∀ failurePolicy remaining statuses statuses', Finishes statuses statuses' →
      evaluateJoin .any failurePolicy remaining statuses ≠ .waiting →
        evaluateJoin .any failurePolicy remaining statuses' =
          evaluateJoin .any failurePolicy remaining statuses) ∧
    (∀ failurePolicy remaining statuses statuses', Finishes statuses statuses' →
      evaluateJoin .all failurePolicy remaining statuses = .failed →
        evaluateJoin .all failurePolicy remaining statuses' ≠ .ready ∧
          evaluateJoin .all failurePolicy remaining statuses' ≠ .readyAndCancelRemaining) := by
  refine ⟨fun _ _ _ _ _ h => evaluateJoin_perm h, fun _ _ _ _ _ h => h.decided,
    fun _ _ => evaluateJoin_all_ready, ?_, fun _ _ _ _ h => h.any, ?_⟩
  · rintro policy remaining statuses hpolicy ⟨status, hmem, hfailure⟩
    rw [evaluateJoin_failFast hpolicy hmem hfailure]
    exact ⟨by decide, by decide⟩
  · intro failurePolicy remaining statuses statuses' h hfailed
    rw [h.all hfailed]
    exact ⟨by decide, by decide⟩

end VibeKanban.Orchestration
