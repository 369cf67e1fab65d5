import VibeKanban.Runtime.Acceptance

/-! What the snapshots and source records of a run hold, and the keys of the executions. -/
namespace VibeKanban.Runtime
open Lib Workflow

namespace Db
variable {db : Db} {runId : ℕ}

/-- The keys of the table of executions: identities, fresh ones among them, and the unique key of
run, node and iteration. -/
structure ExecutionKeys (db : Db) : Prop where
  ids : (db.nodeExecutions.map (·.id)).Nodup
  fresh : ∀ n ∈ db.nodeExecutions, n.id < db.nextId
  keys : (db.nodeExecutions.map fun n => (n.runId, n.nodeId, n.iteration)).Nodup

theorem mem_ownExecutions {n : NodeExecutionRow} :
    n ∈ db.ownExecutions runId ↔ n ∈ db.nodeExecutions ∧ n.runId = runId := by
  simp [ownExecutions]

theorem mem_reusedExecutions {e : EffectiveExecution} :
    e ∈ db.reusedExecutions runId ↔ ∃ r ∈ db.reuse, r.runId = runId ∧
      ∃ n ∈ db.nodeExecutions, n.id = r.sourceNodeExecutionId ∧
        e = ⟨n.id, { n.snapshot with nodeId := r.nodeId, iteration := r.iteration }⟩ := by
  simp only [reusedExecutions, List.mem_flatMap, List.mem_filter, List.mem_map, beq_iff_eq,
    and_assoc]
  exact exists_congr fun r => and_congr_right fun _ => and_congr_right fun _ =>
    exists_congr fun n => and_congr_right fun _ => and_congr_right fun _ => eq_comm

theorem mem_effectiveExecutions {e : EffectiveExecution} :
    e ∈ db.effectiveExecutions runId ↔
      (∃ n ∈ db.ownExecutions runId, e = ⟨n.id, n.snapshot⟩) ∨ e ∈ db.reusedExecutions runId := by
  simp only [effectiveExecutions, List.mem_append, List.mem_map]
  exact or_congr_left (exists_congr fun n => and_congr_right fun _ => eq_comm)

theorem mem_dispositionSnapshots {e : NodeExecutionSnapshot} :
    e ∈ db.dispositionSnapshots runId ↔
      ∃ d ∈ db.dispositions, d.runId = runId ∧ e = ⟨d.nodeId, 0, .skipped, none, none⟩ := by
  simp only [dispositionSnapshots, List.mem_map, List.mem_filter, beq_iff_eq, and_assoc]
  exact exists_congr fun d => and_congr_right fun _ => and_congr_right fun _ => eq_comm

theorem loadRunSnapshot_perm (db : Db) (runId : ℕ) :
    (db.loadRunSnapshot runId).nodes.Perm
      ((db.effectiveExecutions runId).map (·.snapshot) ++ db.dispositionSnapshots runId) :=
  List.perm_insertionSort _ _

theorem mem_loadRunSnapshot {e : NodeExecutionSnapshot} :
    e ∈ (db.loadRunSnapshot runId).nodes ↔
      (∃ x ∈ db.effectiveExecutions runId, e = x.snapshot) ∨ e ∈ db.dispositionSnapshots runId := by
  rw [(db.loadRunSnapshot_perm runId).mem_iff, List.mem_append, List.mem_map]
  exact or_congr_left (exists_congr fun x => and_congr_right fun _ => eq_comm)

/-- A succeeded source record is a succeeded execution of the effective view. -/
theorem mem_sourceExecutions_succeeded {r : ReworkSourceExecution} :
    r ∈ db.sourceExecutions runId ∧ r.status = .succeeded ↔
      ∃ x ∈ db.effectiveExecutions runId, x.snapshot.status = .succeeded ∧
        r = ⟨executionIdText x.sourceNodeExecutionId, x.snapshot.nodeId, x.snapshot.iteration,
          .succeeded, x.snapshot.outputText⟩ := by
  simp only [sourceExecutions, List.mem_append, List.mem_map]
  constructor
  · rintro ⟨⟨x, hx, rfl⟩ | ⟨d, hd, rfl⟩, hs⟩
    · refine ⟨x, hx, ?_⟩
      cases hst : x.snapshot.status <;> simp [hst] at hs ⊢
    · simp at hs
  · rintro ⟨x, hx, hs, rfl⟩
    exact ⟨Or.inl ⟨x, hx, by simp [hs]⟩, rfl⟩

/-- A row of the effective view shows the execution it names. -/
theorem effectiveExecutions_source {x : EffectiveExecution}
    (hx : x ∈ db.effectiveExecutions runId) : ∃ n ∈ db.nodeExecutions,
      n.id = x.sourceNodeExecutionId ∧ n.status = x.snapshot.status ∧
        n.outputText = x.snapshot.outputText := by
  rcases mem_effectiveExecutions.mp hx with ⟨n, hn, rfl⟩ | hx
  · exact ⟨n, (mem_ownExecutions.mp hn).1, rfl, rfl, rfl⟩
  · obtain ⟨r, _, _, n, hn, _, rfl⟩ := mem_reusedExecutions.mp hx
    exact ⟨n, hn, rfl, rfl, rfl⟩

end Db

end VibeKanban.Runtime
