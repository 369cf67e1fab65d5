import VibeKanban.Runtime.Ledger

/-! Submitting requests: one run per request, replays, and the chain of the runs of an instance. -/
namespace VibeKanban.Runtime
open Lib Workflow

/-- Every element of a list names the one before it as its source. -/
def Linked : Option ℕ → List Acceptance → Prop
  | _, [] => True
  | previous, a :: rest => a.sourceRunId = previous ∧ Linked (some a.runId) rest

theorem linked_append {previous : Option ℕ} {l : List Acceptance} {a : Acceptance}
    (h : Linked previous l)
    (ha : a.sourceRunId = (l.getLast?.map (·.runId)).or previous) : Linked previous (l ++ [a]) := by
  induction l generalizing previous with
  | nil => exact ⟨ha, trivial⟩
  | cons b rest ih =>
    refine ⟨h.1, ih h.2 ?_⟩
    rw [ha]
    cases hlast : rest.getLast? with
    | none => simp [List.getLast?_cons, hlast]
    | some c => simp [List.getLast?_cons, hlast]

/-- The sources along a linked list: the first has none, every other one has its predecessor. -/
theorem Linked.sources {previous : Option ℕ} {l : List Acceptance} (h : Linked previous l) :
    l.map (·.sourceRunId) = (previous :: l.map fun a => some a.runId).take l.length := by
  induction l generalizing previous with
  | nil => rfl
  | cons a rest ih =>
    rw [List.map_cons, List.map_cons, List.length_cons, List.take_succ_cons, h.1, ih h.2]

theorem Linked.nodup_sources {l : List Acceptance} (h : Linked none l)
    (hids : (l.map (·.runId)).Nodup) : (l.map (·.sourceRunId)).Nodup := by
  rw [h.sources]
  refine (List.take_sublist _ _).nodup ?_
  rw [List.nodup_cons]
  refine ⟨by simp, ?_⟩
  have hsome : (l.map fun a => some a.runId) = (l.map (·.runId)).map some := by simp
  rw [hsome]
  exact hids.map (Option.some_injective ℕ)

namespace Db

/-- The ledger is in order: every request was accepted once, every run was accepted, the accepted
runs of an instance form a chain, and its latest run is the end of the chain. -/
structure InOrder (db : Db) : Prop where
  runIds : (db.acceptances.map (·.runId)).Nodup
  keys : (db.acceptances.map (·.key)).Nodup
  runs : db.runs.map (·.owner) = db.acceptances.map fun a => (a.runId, some a.instanceId)
  attemptIds : (db.attempts.map (·.id)).Nodup
  attemptFresh : ∀ a ∈ db.attempts, a.id < db.nextId
  known : ∀ a ∈ db.acceptances, a.instanceId ∈ db.attempts.map (·.id)
  latest : ∀ a ∈ db.attempts, a.latestRunId = (db.history a.id).getLast?.map (·.runId)
  linked : ∀ instanceId, Linked none (db.history instanceId)

variable {db db' : Db}

theorem InOrder.aside (h : db.InOrder) (haside : db.Aside db') : db'.InOrder := by
  have hhistory : ∀ id, db'.history id = db.history id := by
    intro id
    unfold history
    rw [haside.acceptances]
  refine ⟨?_, ?_, ?_, ?_, ?_, ?_, ?_, ?_⟩
  · rw [haside.acceptances]
    exact h.runIds
  · rw [haside.acceptances]
    exact h.keys
  · rw [haside.runs, haside.acceptances]
    exact h.runs
  · rw [haside.attempts]
    exact h.attemptIds
  · rw [haside.attempts]
    intro a ha
    exact (h.attemptFresh a ha).trans_le haside.nextId
  · rw [haside.acceptances, haside.attempts]
    exact h.known
  · rw [haside.attempts]
    intro a ha
    rw [hhistory]
    exact h.latest a ha
  · intro id
    rw [hhistory]
    exact h.linked id

theorem InOrder.no_run (h : db.InOrder) {a : AttemptRow} (ha : a ∈ db.attempts)
    (hnone : a.latestRunId = none) : ∀ r ∈ db.runs, r.attemptId ≠ some a.id := by
  intro r hr hattempt
  have hmem : r.owner ∈ db.runs.map (·.owner) := List.mem_map_of_mem hr
  rw [h.runs] at hmem
  obtain ⟨x, hx, howner⟩ := List.mem_map.mp hmem
  have hinstance : x.instanceId = a.id := by
    have hsnd : some x.instanceId = r.attemptId := (Prod.mk.inj howner).2
    exact Option.some.inj (hsnd.trans hattempt)
  have hin : x ∈ db.history a.id := List.mem_filter.mpr ⟨hx, by simpa using hinstance⟩
  have hlatest := h.latest a ha
  rw [hnone] at hlatest
  have hempty : db.history a.id = [] := by simpa using hlatest.symm
  rw [hempty] at hin
  cases hin

theorem InOrder.syncAttempt (h : db.InOrder) (runId : ℕ) : (db.syncAttempt runId).InOrder := by
  have hsame : (db.syncAttempt runId).attempts = db.attempts := by
    unfold Db.syncAttempt updateWhere
    refine (List.map_congr_left fun a ha => ?_).trans (List.map_id _)
    rw [if_neg]
    · rfl
    · intro hp
      simp only [Bool.and_eq_true, Option.isNone_iff_eq_none] at hp
      obtain ⟨r, hr, howned⟩ := List.any_eq_true.mp hp.2
      simp only [Bool.and_eq_true, beq_iff_eq] at howned
      exact h.no_run ha hp.1 r hr howned.2
  exact h.aside ⟨rfl, rfl, hsame, le_rfl⟩

theorem InOrder.newAttempt (h : db.InOrder) (issueId : ℕ) (graph : WorkflowGraph) :
    ({ db with attempts := db.attempts ++ [⟨db.nextId, issueId, graph, none⟩]
               nextId := db.nextId + 1 } : Db).InOrder := by
  have hnew : db.nextId ∉ db.attempts.map (·.id) := by
    intro hmem
    obtain ⟨a, ha, hid⟩ := List.mem_map.mp hmem
    have hlt := h.attemptFresh a ha
    omega
  refine ⟨h.runIds, h.keys, h.runs, ?_, ?_, ?_, ?_, h.linked⟩
  · rw [List.map_append, List.nodup_append']
    exact ⟨h.attemptIds, by simp, by simpa using hnew⟩
  · intro a ha
    rcases List.mem_append.mp ha with ha | ha
    · exact (h.attemptFresh a ha).trans (Nat.lt_succ_self _)
    · rw [List.mem_singleton.mp ha]
      exact Nat.lt_succ_self _
  · intro a ha
    rw [List.map_append]
    exact List.mem_append_left _ (h.known a ha)
  · intro a ha
    rcases List.mem_append.mp ha with ha | ha
    · exact h.latest a ha
    · obtain rfl := List.mem_singleton.mp ha
      have hempty : db.history db.nextId = [] := by
        unfold history
        rw [List.filter_eq_nil_iff]
        intro x hx hid
        exact hnew ((of_decide_eq_true hid) ▸ h.known x hx)
      change none = (db.history db.nextId).getLast?.map (·.runId)
      rw [hempty]
      rfl

theorem history_append {row : Acceptance} (hrows : db'.acceptances = db.acceptances ++ [row])
    (id : ℕ) : db'.history id = db.history id ++ if row.instanceId = id then [row] else [] := by
  unfold history
  rw [hrows, List.filter_append]
  congr 1
  by_cases hid : row.instanceId = id
  · simp [hid]
  · simp [hid]

theorem InOrder.accept (h : db.InOrder) {attempt : AttemptRow} {row : Acceptance}
    (hattempt : attempt ∈ db.attempts) (hinstance : row.instanceId = attempt.id)
    (hsource : row.sourceRunId = attempt.latestRunId)
    (hrun : row.runId ∉ db.acceptances.map (·.runId)) (hkey : row.key ∉ db.acceptances.map (·.key))
    (hacceptances : db'.acceptances = db.acceptances ++ [row])
    (hruns : db'.runs.map (·.owner) = db.runs.map (·.owner) ++ [(row.runId, some row.instanceId)])
    (hattempts : db'.attempts = updateWhere (fun a => some a.id == some row.instanceId)
      (fun a => { a with latestRunId := some row.runId }) db.attempts)
    (hnext : db.nextId ≤ db'.nextId) : db'.InOrder := by
  have hids : db'.attempts.map (·.id) = db.attempts.map (·.id) := by
    rw [hattempts]
    refine map_updateWhere (fun a => ?_) db.attempts
    rfl
  refine ⟨?_, ?_, ?_, ?_, ?_, ?_, ?_, ?_⟩
  · rw [hacceptances, List.map_append, List.nodup_append']
    exact ⟨h.runIds, by simp, by simpa using hrun⟩
  · rw [hacceptances, List.map_append, List.nodup_append']
    exact ⟨h.keys, by simp, by simpa using hkey⟩
  · rw [hruns, hacceptances, List.map_append, h.runs]
    rfl
  · rw [hids]
    exact h.attemptIds
  · rw [hattempts]
    intro a ha
    rcases mem_updateWhere.mp ha with ⟨x, hx, _, rfl⟩ | ⟨ha, _⟩
    · exact (h.attemptFresh x hx).trans_le hnext
    · exact (h.attemptFresh a ha).trans_le hnext
  · intro a ha
    rw [hacceptances] at ha
    rw [hids]
    rcases List.mem_append.mp ha with ha | ha
    · exact h.known a ha
    · rw [List.mem_singleton.mp ha, hinstance]
      exact List.mem_map_of_mem hattempt
  · rw [hattempts]
    intro a ha
    rcases mem_updateWhere.mp ha with ⟨x, _, hp, rfl⟩ | ⟨ha, hp⟩
    · have hid : x.id = row.instanceId := by simpa using hp
      rw [history_append hacceptances, if_pos hid.symm]
      simp
    · have hid : a.id ≠ row.instanceId := by simpa using hp
      rw [history_append hacceptances, if_neg (Ne.symm hid), List.append_nil]
      exact h.latest a ha
  · intro id
    rw [history_append hacceptances]
    split_ifs with hid
    · refine linked_append (h.linked id) ?_
      rw [hsource, h.latest attempt hattempt, ← hinstance, hid, Option.or_none]
    · rw [List.append_nil]
      exact h.linked id

theorem replayed_some {scope : SubmissionScope} {submission : WorkflowSubmission}
    {row : SubmissionRow} (h : db.replayed scope submission = some row) :
    row ∈ db.submissions ∧ some row.instanceId = scope.instanceId ∧
      row.callerNamespace = scope.callerNamespace ∧ row.requestId = submission.requestId := by
  unfold replayed at h
  exact ⟨List.mem_of_find?_eq_some h, by simpa using List.find?_some h⟩

/-- The instance of a request that was checked: the source of the request is its latest run. -/
theorem InOrder.submissionInstance (h : db.InOrder) {scope : SubmissionScope}
    {submission : WorkflowSubmission} {instanceId : ℕ} {graph : WorkflowGraph}
    (hcheck : db.checkAction scope submission = .ok ())
    (hok : db.submissionInstance scope = .ok (instanceId, graph, db')) : db'.InOrder ∧
      db'.acceptances = db.acceptances ∧ (∀ a ∈ db.attempts, a ∈ db'.attempts) ∧
      (∀ id, scope.instanceId = some id → instanceId = id) ∧
      ∃ attempt ∈ db'.attempts, attempt.id = instanceId ∧
        attempt.latestRunId = submission.sourceRunId := by
  have hlatest : db.latestRun scope.instanceId = submission.sourceRunId := by
    unfold checkAction at hcheck
    split at hcheck
    · split_ifs at hcheck with hstart hpolicy
      push Not at hstart
      have hnone : db.latestRun scope.instanceId = none := by simpa using hstart.1
      have hsource : submission.sourceRunId = none := by simpa using hstart.2.1
      rw [hnone, hsource]
    · split_ifs at hcheck with hstale
      push Not at hstale
      exact hstale.2
  unfold Db.submissionInstance at hok
  cases hscope : scope.instanceId with
  | some id =>
    simp only [hscope] at hok hlatest
    split at hok
    · rename_i attempt hfind
      obtain ⟨rfl, _, rfl⟩ := by simpa using hok
      have hid : attempt.id = id := by simpa using List.find?_some hfind
      refine ⟨h, rfl, fun _ ha => ha, fun _ hsame => Option.some.inj hsame, attempt,
        List.mem_of_find?_eq_some hfind, hid, ?_⟩
      rw [← hlatest]
      unfold latestRun
      simp only [Option.some.injEq]
      rw [hfind]
      rfl
    · cases hok
  | none =>
    simp only [hscope] at hok hlatest
    have hnone : submission.sourceRunId = none := by
      rw [← hlatest]
      unfold latestRun
      rw [List.find?_eq_none.mpr]
      · rfl
      · intro a _ hsame
        exact absurd (of_decide_eq_true hsame) (Option.some_ne_none a.id)
    rw [hnone]
    split at hok
    · rename_i attempt hfind
      split_ifs at hok with hworked
      obtain ⟨rfl, _, rfl⟩ := by simpa using hok
      exact ⟨h, rfl, fun _ ha => ha, nofun, attempt, List.mem_of_find?_eq_some hfind, rfl,
        by simpa using hworked⟩
    · obtain ⟨rfl, _, rfl⟩ := by simpa using hok
      refine ⟨h.newAttempt scope.issueId scope.graph, rfl, fun _ ha => List.mem_append_left _ ha,
        nofun, ⟨db.nextId, scope.issueId, scope.graph, none⟩, ?_, rfl, rfl⟩
      exact List.mem_append_right _ (List.mem_singleton_self _)

theorem initializeRun_tables {runId : ℕ} {attemptId : Option ℕ} {projectId : ℕ}
    {graph : WorkflowGraph} {inputText : String} {queueProjectId : Option ℕ} {phase : QueuePhase}
    {affected : Option (List String)} (hnew : db.run? runId = none)
    (h : db.initializeRun runId attemptId projectId graph inputText queueProjectId phase affected =
      .ok db') : db'.submissions.map (·.acceptance) = db.acceptances ∧
        db'.runs.map (·.owner) = db.runs.map (·.owner) ++ [(runId, attemptId)] ∧
        db'.attempts = updateWhere (fun a => some a.id == attemptId)
          (fun a => { a with latestRunId := some runId }) db.attempts ∧ db.nextId ≤ db'.nextId := by
  rcases initializeRun_cases h with ⟨hsome, _⟩ | ⟨_, mid, hmid, hqueue⟩
  · rw [hnew] at hsome
    cases hsome
  · have hrows := aside_materializeAll hmid
    have hend : mid.Aside db' := by
      rcases hqueue with ⟨_, rfl⟩ | ⟨project, _, henqueue⟩
      · exact Aside.refl _
      · unfold enqueue at henqueue
        split_ifs at henqueue
        obtain rfl := Except.ok.inj henqueue
        exact aside_of_tables rfl rfl rfl le_rfl
    have hall := hrows.trans hend
    refine ⟨hall.acceptances, ?_, hall.attempts, hall.nextId⟩
    rw [hall.runs]
    unfold insertRun
    rw [List.map_append]
    rfl

/-- A request that is no replay is accepted at the end of the chain of its instance. -/
theorem InOrder.submit {fromStr : String → Option Json} (h : db.InOrder) {scope : SubmissionScope}
    {submission : WorkflowSubmission} {runId id : ℕ}
    (hsubmit : db.submit fromStr scope submission runId = .ok (id, db'))
    (hreplayed : db.replayed scope submission = none) : db'.InOrder ∧ id = runId ∧
      ∃ instanceId, (∀ i, scope.instanceId = some i → instanceId = i) ∧
        instanceId ∈ db'.attempts.map (·.id) ∧
        db.attempts.map (·.id) ⊆ db'.attempts.map (·.id) ∧
        db'.acceptances = db.acceptances ++ [⟨runId, instanceId, scope.callerNamespace,
          submission.requestId, submission.requestHash, submission.sourceRunId⟩] := by
  rcases submit_cases fromStr hsubmit with ⟨row, hrow, _⟩ | ⟨_, hcheck, rfl, _, _, instanceId, graph,
    db₀, roots, plan, db₁, db₂, db₃, _, h₀, _, h₁, h₂, h₃, hend⟩
  · rw [hreplayed] at hrow
    cases hrow
  · obtain ⟨horder, hrows, hkept, hscope, attempt, hattempt, hid, hlatest⟩ :=
      h.submissionInstance hcheck h₀
    have hunique : ∀ s ∈ db₁.submissions, s.runId ≠ id ∧
        ¬ (s.callerNamespace = scope.callerNamespace ∧ s.instanceId = instanceId ∧
          s.requestId = submission.requestId) := by
      intro s hs
      unfold insertSubmission at h₂
      split_ifs at h₂ with hexists
      simp only [List.any_eq_true, not_exists, not_and, Bool.or_eq_true, Bool.and_eq_true,
        beq_iff_eq, not_or] at hexists
      have hfree := hexists s hs
      exact ⟨hfree.1, fun hsame => hfree.2 ⟨hsame.1, hsame.2.1⟩ hsame.2.2⟩
    have hnew : db₀.run? id = none := by
      by_contra hsome
      have hsame : db₁ = db₀ := by
        rcases initializeRun_cases h₁ with ⟨_, hsame⟩ | ⟨hnone, _⟩
        · exact hsame
        · exact absurd hnone hsome
      obtain ⟨run, hrun⟩ := Option.ne_none_iff_exists'.mp hsome
      have howner : run.owner ∈ db₀.runs.map (·.owner) :=
        List.mem_map_of_mem (List.mem_of_find?_eq_some hrun)
      rw [horder.runs] at howner
      obtain ⟨a, ha, haowner⟩ := List.mem_map.mp howner
      obtain ⟨s, hs, rfl⟩ := List.mem_map.mp ha
      have hrunId : run.id = id := by simpa using List.find?_some hrun
      exact (hunique s (hsame ▸ hs)).1 ((Prod.mk.inj haowner).1.trans hrunId)
    obtain ⟨hledger, hruns, hattempts, hnext⟩ := initializeRun_tables hnew h₁
    have hend : db₂.Aside db' := by
      refine (aside_stopSource h₃).trans ?_
      rcases hend with ⟨_, rfl⟩ | ⟨fixed, _, hfixed⟩
      · exact Aside.refl _
      · exact aside_applyRunPlan hfixed
    have hrow := insertSubmission_ok h₂
    have hfresh : ∀ a ∈ db₀.acceptances, a.runId ≠ id ∧ a.key ≠
        (scope.callerNamespace, instanceId, submission.requestId) := by
      intro a ha
      rw [← hledger] at ha
      obtain ⟨s, hs, rfl⟩ := List.mem_map.mp ha
      refine ⟨(hunique s hs).1, fun hkey => (hunique s hs).2 ?_⟩
      simpa [Acceptance.key, SubmissionRow.acceptance] using hkey
    have haccepted : db'.acceptances = db.acceptances ++ [⟨id, instanceId, scope.callerNamespace,
        submission.requestId, submission.requestHash, submission.sourceRunId⟩] := by
      rw [hend.acceptances, hrow, ← hrows, ← hledger]
      unfold acceptances
      rw [List.map_append]
      rfl
    have hids : db'.attempts.map (·.id) = db₀.attempts.map (·.id) := by
      rw [hend.attempts, hrow, hattempts]
      refine map_updateWhere (fun a => ?_) db₀.attempts
      rfl
    refine ⟨?_, rfl, instanceId, hscope, ?_, ?_, haccepted⟩
    · refine horder.accept hattempt hid.symm hlatest.symm ?_ ?_ (hrows ▸ haccepted) ?_ ?_ ?_
      · intro hmem
        obtain ⟨a, ha, hsame⟩ := List.mem_map.mp hmem
        exact (hfresh a ha).1 hsame
      · intro hmem
        obtain ⟨a, ha, hsame⟩ := List.mem_map.mp hmem
        exact (hfresh a ha).2 hsame
      · rw [hend.runs, hrow]
        exact hruns
      · rw [hend.attempts, hrow]
        exact hattempts
      · refine hnext.trans ?_
        refine le_trans ?_ hend.nextId
        rw [hrow]
    · rw [hids, ← hid]
      exact List.mem_map_of_mem hattempt
    · intro i hi
      obtain ⟨a, ha, rfl⟩ := List.mem_map.mp hi
      rw [hids]
      exact List.mem_map_of_mem (hkept a ha)

end Db

end VibeKanban.Runtime
