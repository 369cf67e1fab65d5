import VibeKanban.Runtime.QueueMoves

/-! A run that waits for its source waits for a run ahead of it, never for one behind it. -/
namespace VibeKanban.Runtime
open Lib Workflow

theorem QueuePhase.Next.not_waiting {p p' : QueuePhase} (h : p.Next p') : p'.isWaiting = false := by
  rcases h with ⟨_, rfl⟩ | ⟨_, rfl⟩ | ⟨_, h⟩
  · rfl
  · rfl
  · cases p' <;> simp_all [QueuePhase.holdsSlot, QueuePhase.isWaiting]

namespace Db
variable {db db' : Db}

/-- The entry was submitted on top of a source run. -/
def WaitsFor (db : Db) (q : QueueRow) (source : ℕ) : Prop :=
  ∃ s ∈ db.submissions, s.runId = q.runId ∧ s.sourceRunId = some source

/-- New entries go behind all others, and a waiting entry has an existing source whose own entry,
if it has one, is ahead of it. -/
structure WaitInv (db : Db) : Prop where
  sequences : ∀ q ∈ db.queue, q.sequence < db.nextSequence
  submissions : (db.submissions.map (·.runId)).Nodup
  sources : ∀ q ∈ db.queue, q.phase.isWaiting = true → ∃ source ∈ db.runs.map (·.id),
    db.WaitsFor q source ∧ ∀ e ∈ db.queue, e.runId = source → e.sequence < q.sequence

theorem WaitInv.withSlots (h : db.WaitInv) (slots : List SlotRow) :
    ({ db with slots := slots } : Db).WaitInv := ⟨h.sequences, h.submissions, h.sources⟩

/-- Any write of phases that makes nothing wait. -/
theorem waitInv_setQueue (h : db.WaitInv) {p : QueueRow → Bool} {next : QueuePhase}
    (hnext : ∀ q ∈ db.queue, p q = true → next.isWaiting = false) : (db.setQueue p next).WaitInv := by
  have horigin : ∀ q ∈ (db.setQueue p next).queue, ∃ x ∈ db.queue, x.sequence = q.sequence ∧
      x.runId = q.runId ∧ (q.phase.isWaiting = true → q = x) := by
    intro q hq
    rcases mem_updateWhere.mp hq with ⟨x, hx, hp, rfl⟩ | ⟨hq, _⟩
    · exact ⟨x, hx, rfl, rfl, fun hw => absurd ((hnext x hx hp).symm.trans hw) (by simp)⟩
    · exact ⟨q, hq, rfl, rfl, fun _ => rfl⟩
  refine ⟨fun q hq => ?_, h.submissions, fun q hq hw => ?_⟩
  · obtain ⟨x, hx, hseq, _⟩ := horigin q hq
    exact hseq ▸ h.sequences x hx
  · obtain ⟨x, hx, _, _, heq⟩ := horigin q hq
    obtain rfl := heq hw
    obtain ⟨source, hrun, hsource, hbehind⟩ := h.sources q hx hw
    refine ⟨source, hrun, hsource, fun e he hid => ?_⟩
    obtain ⟨y, hy, hseq, hrunId, _⟩ := horigin e he
    exact hseq ▸ hbehind y hy (hrunId.trans hid)

theorem WaitsFor.keeps {q : QueueRow} {source : ℕ} (h : db.WaitsFor q source)
    (hkeeps : KeepsSubmissions db.submissions db'.submissions) : db'.WaitsFor q source := by
  obtain ⟨s, hs, hrun, hsource⟩ := h
  obtain ⟨s', hs', hrun', hsource'⟩ := hkeeps.kept s hs
  exact ⟨s', hs', hrun'.trans hrun, hsource'.trans hsource⟩

theorem waitInv_apart (h : db.WaitInv) (hmove : db.QueueApart db') : db'.WaitInv := by
  refine ⟨?_, hmove.submissions.keys h.submissions, ?_⟩
  · rw [hmove.queue, hmove.nextSequence]
    exact h.sequences
  · rw [hmove.queue]
    intro q hq hw
    obtain ⟨source, hrun, hsource, hbehind⟩ := h.sources q hq hw
    exact ⟨source, hmove.runs hrun, hsource.keeps hmove.submissions, hbehind⟩

/-- The source of a new entry existed before, so its own entry is an older one. -/
theorem waitInv_accepts (h : db.WaitInv) {runId projectId : ℕ} {phase : QueuePhase}
    (hmove : db.Accepts db' runId projectId phase) : db'.WaitInv := by
  refine ⟨?_, hmove.submissions.keys h.submissions, ?_⟩
  · rw [hmove.queue, hmove.nextSequence]
    intro q hq
    rcases List.mem_append.mp hq with hq | hq
    · exact (h.sequences q hq).trans (Nat.lt_succ_self _)
    · rw [List.mem_singleton.mp hq]
      exact Nat.lt_succ_self _
  · rw [hmove.queue]
    intro q hq hw
    rcases List.mem_append.mp hq with hq | hq
    · obtain ⟨source, hrun, hsource, hbehind⟩ := h.sources q hq hw
      refine ⟨source, hmove.runs hrun, hsource.keeps hmove.submissions, fun e he hid => ?_⟩
      rcases List.mem_append.mp he with he | he
      · exact hbehind e he hid
      · obtain rfl := List.mem_singleton.mp he
        obtain rfl : runId = source := hid
        exact absurd hrun hmove.fresh
    · obtain rfl := List.mem_singleton.mp hq
      obtain ⟨s, hs, hrunId, source, hrun, hsource⟩ := hmove.source hw
      refine ⟨source, hmove.runs hrun, ⟨s, hs, hrunId, hsource⟩, fun e he hid => ?_⟩
      rcases List.mem_append.mp he with he | he
      · exact h.sequences e he
      · obtain rfl := List.mem_singleton.mp he
        obtain rfl : runId = source := hid
        exact absurd hrun hmove.fresh

theorem waitInv_moves (h : db.WaitInv) (hmoves : db.QueueMoves db') : db'.WaitInv := by
  induction hmoves with
  | refl => exact h
  | tail _ hmove ih =>
    cases hmove with
    | apart happart => exact waitInv_apart ih happart
    | phase hphase => exact waitInv_setQueue ih fun q hq hp => (hphase q hq hp).not_waiting
    | accept haccept => exact waitInv_accepts ih haccept

end Db

theorem Stmt.Exec.waitInv {fromStr : String → Option Json} {s : Stmt} {db db' : Db} {a : s.Ans}
    (h : s.Exec fromStr db a db') (hinv : db.WaitInv) : db'.WaitInv := by
  cases s with
  | claimNext =>
    rw [← run_snd h, Db.claimNext]
    split
    · exact hinv
    · exact Db.waitInv_setQueue (hinv.withSlots _) fun _ _ _ => rfl
  | releaseTerminal runId =>
    rw [← run_snd h, Db.releaseTerminal]
    split_ifs
    · exact Db.waitInv_setQueue (hinv.withSlots _) fun _ _ _ => rfl
    · exact hinv
  | setQueueActive runId => exact run_snd h ▸ Db.waitInv_setQueue hinv fun _ _ _ => rfl
  | _ => exact Db.waitInv_moves hinv (h.queueMoves rfl)

/-- From a database without queue entries, in every reachable state: a waiting entry has one source
run, which has no entry, a finished one or one with a smaller sequence number. So the oldest
unfinished entry of a project never waits for another unfinished entry of the project. -/
theorem queue_never_deadlocks {config : Config} {db : Db} {w : System} (hqueue : db.queue = [])
    (hkeys : (db.submissions.map (·.runId)).Nodup)
    (h : Interleaves config unguarded (.start db) w) :
    (∀ q ∈ w.state.queue, q.phase.isWaiting = true → ∃ source ∈ w.state.runs.map (·.id),
      (∀ id, w.state.WaitsFor q id ↔ id = source) ∧
      ∀ e ∈ w.state.queue, e.runId = source → e.phase = .finished ∨ e.sequence < q.sequence) ∧
    ∀ q ∈ w.state.queue, q.phase ≠ .finished →
      (∀ e ∈ w.state.queue, e.projectId = q.projectId → e.phase ≠ .finished →
        q.sequence ≤ e.sequence) →
      ∀ e ∈ w.state.queue, e.projectId = q.projectId → e.phase ≠ .finished →
        ¬(q.phase.isWaiting = true ∧ w.state.WaitsFor q e.runId) := by
  have hinv : w.state.WaitInv := by
    refine Steps.inv (I := fun _ db => db.WaitInv) (fun _ _ _ _ _ hI _ hs => hs.waitInv hI) ?_ h ?_
    · rintro _ x _ hI ⟨o, rfl⟩
      exact Db.waitInv_apart hI (Db.queueApart_of_tables rfl rfl rfl rfl rfl)
    · exact ⟨by simp [World.start, hqueue], hkeys, by simp [World.start, hqueue]⟩
  have hsource : ∀ q ∈ w.state.queue, q.phase.isWaiting = true → ∃ source ∈ w.state.runs.map (·.id),
      (∀ id, w.state.WaitsFor q id ↔ id = source) ∧
      ∀ e ∈ w.state.queue, e.runId = source → e.sequence < q.sequence := by
    intro q hq hw
    obtain ⟨source, hrun, ⟨s, hs, hid, hsource⟩, hbehind⟩ := hinv.sources q hq hw
    refine ⟨source, hrun, fun id => ⟨?_, ?_⟩, hbehind⟩
    · rintro ⟨s', hs', hid', hsource'⟩
      obtain rfl := List.inj_on_of_nodup_map hinv.submissions hs' hs (hid'.trans hid.symm)
      exact Option.some.inj (hsource'.symm.trans hsource)
    · rintro rfl
      exact ⟨s, hs, hid, hsource⟩
  constructor
  · intro q hq hw
    obtain ⟨source, hrun, hunique, hbehind⟩ := hsource q hq hw
    exact ⟨source, hrun, hunique, fun e he hid => Or.inr (hbehind e he hid)⟩
  · rintro q hq _ holdest e he hproject hunfinished ⟨hw, hwaits⟩
    obtain ⟨source, _, hunique, hbehind⟩ := hsource q hq hw
    have hahead := hbehind e he ((hunique _).mp hwaits)
    exact absurd (holdest e he hproject hunfinished) (by omega)

section Fixture

/-- A run is accepted, and a rework of it is submitted while it is queued. -/
theorem queue_never_deadlocks_rework : ∃ w : System,
    Interleaves Config.plain unguarded (.start instanceDb) w ∧
      w.state.queue = [⟨0, 1, 0, .queued⟩, ⟨1, 2, 0, .waitingForSource⟩] ∧
      ∃ source ∈ w.state.runs.map (·.id), w.state.WaitsFor ⟨1, 2, 0, .waitingForSource⟩ source := by
  let scope : SubmissionScope := ⟨"ui", some 9, 3, 0, straightGraph⟩
  let submission : WorkflowSubmission :=
    ⟨"again", "hash", .rework, some "more", some 1, none, none, some .afterCurrent⟩
  obtain ⟨w, hw, hqueue⟩ : ∃ w : System, follow (Stmt.accept Config.plain unguarded)
      [0, 0, 0, 1] ⟨[], instanceDb, [acceptWorkflowRun 1 (some 9) 0 straightGraph "input",
        submitWorkflow scope submission 2]⟩ = some w ∧
      w.state.queue = [⟨0, 1, 0, .queued⟩, ⟨1, 2, 0, .waitingForSource⟩] :=
    ⟨_, rfl, rfl⟩
  have hstart : Interleaves Config.plain unguarded _ _ := start_interleaves unguarded instanceDb (by
    intro p hp
    rcases List.mem_pair.mp hp with rfl | rfl
    · exact Operation.accept 1 (some 9) 0 straightGraph "input"
    · exact Operation.submit scope submission 2)
  have hrun := hstart.trans (follow_interleaves hw)
  obtain ⟨source, hmem, hunique, _⟩ := (queue_never_deadlocks rfl (by decide) hrun).1
    ⟨1, 2, 0, .waitingForSource⟩ (by simp [hqueue]) rfl
  exact ⟨w, hrun, hqueue, source, hmem, (hunique source).mpr rfl⟩

end Fixture

end VibeKanban.Runtime
