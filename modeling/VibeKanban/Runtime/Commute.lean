import VibeKanban.Lib.Fold
import VibeKanban.Runtime.Calls
import VibeKanban.Runtime.View

/-! The observations of different agent runs commute. -/
namespace VibeKanban.Runtime
open Lib Workflow Router

/-- One write of an observation. -/
inductive RowWrite where
  | update (n : NodeExecutionRow) (update : NodeExecutionUpdate)
  | skip (target : String)

namespace RowWrite

def apply (runId : ℕ) (db : Db) : RowWrite → Db
  | update n u => db.updateNodeExecution runId n.nodeId n.iteration u
  | skip target => db.skipTarget runId target

/-- The writes of an observation that does not wait. -/
def ofProjection (n : NodeExecutionRow) (p : Projection) : List RowWrite :=
  (p.update.map (update n)).toList ++ p.skipped.map skip

theorem foldl_ofProjection (runId : ℕ) (db : Db) (n : NodeExecutionRow) {p : Projection}
    (hwaits : p.waits = false) :
    (ofProjection n p).foldl (apply runId) db = db.project runId n p := by
  rw [ofProjection, List.foldl_append, List.foldl_map, Db.project, if_neg (by simp [hwaits])]
  cases p.update with
  | none => rfl
  | some u => rfl

end RowWrite

namespace Db
variable {runId : ℕ} {rows : List NodeExecutionRow}

/-- The executions that observations write have been started. -/
structure Started (keys : NodeExecutionRow → Prop) (db : Db) : Prop where
  ids : (db.nodeExecutions.map (·.id)).Nodup
  started : ∀ r ∈ db.nodeExecutions, keys r → r.status ≠ .pending

variable {keys : NodeExecutionRow → Prop}

theorem Started.setNodes {db : Db} (h : db.Started keys) {p : NodeExecutionRow → Bool}
    {f : NodeExecutionRow → NodeExecutionRow} (hid : ∀ r, (f r).id = r.id)
    (hstatus : ∀ r, (f r).status ≠ .pending) : (db.setNodes p f).Started keys := by
  refine ⟨?_, fun r hr hkey => ?_⟩
  · rw [Db.setNodes, map_updateWhere hid]
    exact h.ids
  · rcases mem_updateWhere.mp hr with ⟨x, _, _, rfl⟩ | ⟨hr, _⟩
    · exact hstatus x
    · exact h.started r hr hkey

theorem Started.skipTarget {db : Db} (h : db.Started keys) (target : String) :
    (db.skipTarget runId target).Started keys := by
  rw [Db.skipTarget]
  split
  · exact h.setNodes (fun _ => rfl) fun _ => by simp
  · exact h

theorem Started.apply {db : Db} (h : db.Started keys) (w : RowWrite) :
    (w.apply runId db).Started keys := by
  cases w with
  | update n u => exact h.setNodes (fun _ => rfl) fun _ => u.started
  | skip target => exact h.skipTarget target

/-- A target is found among the pending rows of its node. -/
theorem pendingTarget_eq (db : Db) (target : String) : db.pendingTarget runId target =
    lowestIteration (db.nodeExecutions.filter fun n =>
      n.nodeId == target && (n.runId == runId && decide (n.status = .pending))) := by
  rw [pendingTarget, pendingExecutions, List.filter_filter]

theorem pendingTarget_setNodes {db : Db} {p : NodeExecutionRow → Bool}
    {f : NodeExecutionRow → NodeExecutionRow} {target : String}
    (h : ∀ r ∈ db.nodeExecutions, p r = true → (r.nodeId = target → r.status ≠ .pending) ∧
      (f r).status ≠ .pending) :
    (db.setNodes p f).pendingTarget runId target = db.pendingTarget runId target := by
  rw [pendingTarget_eq, pendingTarget_eq]
  congr 1
  refine filter_updateWhere fun r hr hp => ?_
  obtain ⟨hbefore, hafter⟩ := h r hr hp
  refine ⟨?_, by simp [hafter]⟩
  by_cases hnode : r.nodeId = target
  · simp [hbefore hnode]
  · simp [hnode]

theorem mem_pendingTarget {db : Db} {target : String} {n : NodeExecutionRow}
    (h : db.pendingTarget runId target = some n) :
    n ∈ db.nodeExecutions ∧ n.nodeId = target ∧ n.status = .pending := by
  have hmem := lowestIteration_mem h
  rw [List.mem_filter, pendingExecutions, List.mem_filter] at hmem
  simp only [beq_iff_eq, Bool.and_eq_true, decide_eq_true_eq] at hmem
  exact ⟨hmem.1.1, hmem.2, hmem.1.2.2⟩

theorem setNodes_comm {db : Db} {p q : NodeExecutionRow → Bool}
    {f g : NodeExecutionRow → NodeExecutionRow}
    (hp : ∀ r ∈ db.nodeExecutions, p r = true → q r = false ∧ q (f r) = false)
    (hq : ∀ r ∈ db.nodeExecutions, q r = true → p r = false ∧ p (g r) = false) :
    (db.setNodes q g).setNodes p f = (db.setNodes p f).setNodes q g := by
  have hrows := updateWhere_comm hp hq
  simp only [setNodes, hrows]

/-- The rows a write of an execution reaches. -/
def updates (runId : ℕ) (n r : NodeExecutionRow) : Bool :=
  r.runId == runId && r.nodeId == n.nodeId && r.iteration == n.iteration && !nodeTerminal r.status

theorem updates_key {n r : NodeExecutionRow} (h : updates runId n r = true) :
    r.runId = runId ∧ r.nodeId = n.nodeId ∧ r.iteration = n.iteration := by
  simp only [updates, Bool.and_eq_true, beq_iff_eq] at h
  exact ⟨h.1.1.1, h.1.1.2, h.1.2⟩

theorem updateNodeExecution_comm (db : Db) {n m : NodeExecutionRow}
    (hne : (n.nodeId, n.iteration) ≠ (m.nodeId, m.iteration)) (u v : NodeExecutionUpdate) :
    (db.updateNodeExecution runId m.nodeId m.iteration v).updateNodeExecution runId n.nodeId
        n.iteration u =
      (db.updateNodeExecution runId n.nodeId n.iteration u).updateNodeExecution runId m.nodeId
        m.iteration v := by
  -- A write keeps the key of its row, and no row has both keys.
  have hdisjoint : ∀ a b : NodeExecutionRow, (a.nodeId, a.iteration) ≠ (b.nodeId, b.iteration) →
      ∀ r r' : NodeExecutionRow, r'.nodeId = r.nodeId → r'.iteration = r.iteration →
        updates runId a r = true → updates runId b r' = false := by
    intro a b hab r r' hnode hiteration ha
    rw [Bool.eq_false_iff]
    intro hb
    obtain ⟨_, hnode₁, hiteration₁⟩ := updates_key ha
    obtain ⟨_, hnode₂, hiteration₂⟩ := updates_key hb
    exact hab (Prod.ext (by rw [← hnode₁, ← hnode₂, hnode]) (by rw [← hiteration₁, ← hiteration₂,
      hiteration]))
  exact setNodes_comm
    (fun r _ hr => ⟨hdisjoint n m hne r r rfl rfl hr, hdisjoint n m hne r _ rfl rfl hr⟩)
    (fun r _ hr => ⟨hdisjoint m n hne.symm r r rfl rfl hr, hdisjoint m n hne.symm r _ rfl rfl hr⟩)

theorem skipTarget_updateNodeExecution {db : Db} (h : db.Started keys) {n : NodeExecutionRow}
    (hkeys : ∀ r, r.runId = runId → r.nodeId = n.nodeId → r.iteration = n.iteration → keys r)
    (u : NodeExecutionUpdate) (target : String) :
    (db.updateNodeExecution runId n.nodeId n.iteration u).skipTarget runId target =
      (db.skipTarget runId target).updateNodeExecution runId n.nodeId n.iteration u := by
  have hstarted : ∀ r ∈ db.nodeExecutions, updates runId n r = true → r.status ≠ .pending := by
    intro r hr hup
    obtain ⟨hrun, hnode, hiteration⟩ := updates_key hup
    exact h.started r hr (hkeys r hrun hnode hiteration)
  have htarget : (db.updateNodeExecution runId n.nodeId n.iteration u).pendingTarget runId target =
      db.pendingTarget runId target :=
    pendingTarget_setNodes fun r hr hup => ⟨fun _ => hstarted r hr hup, u.started⟩
  rw [skipTarget, htarget, skipTarget]
  cases db.pendingTarget runId target with
  | none => rfl
  | some m =>
    refine setNodes_comm (fun r hr hskip => ?_) (fun r hr hup => ?_)
    · rw [Bool.and_eq_true, decide_eq_true_eq] at hskip
      refine ⟨Bool.eq_false_iff.mpr fun hup => hstarted r hr hup hskip.2, ?_⟩
      simp [nodeTerminal]
    · simp [hstarted r hr hup, u.started]

theorem skipTarget_comm {db : Db} (h : db.Started keys) (s t : String) :
    (db.skipTarget runId s).skipTarget runId t = (db.skipTarget runId t).skipTarget runId s := by
  by_cases hst : s = t
  · rw [hst]
  have hother : ∀ a b : String, a ≠ b →
      (db.skipTarget runId a).pendingTarget runId b = db.pendingTarget runId b := by
    intro a b hab
    rw [skipTarget]
    split
    · rename_i m hm
      obtain ⟨hmem, hnode, _⟩ := mem_pendingTarget hm
      refine pendingTarget_setNodes fun r hr hskip => ⟨fun hrb => ?_, by simp⟩
      rw [Bool.and_eq_true, beq_iff_eq] at hskip
      obtain rfl := List.inj_on_of_nodup_map h.ids hr hmem hskip.1
      exact absurd (hnode.symm.trans hrb) hab
    · rfl
  have hs := hother t s (Ne.symm hst)
  have ht := hother s t hst
  rw [skipTarget, ht, skipTarget]
  conv_rhs => rw [skipTarget, hs, skipTarget]
  cases hrow : db.pendingTarget runId s with
  | none => rfl
  | some m =>
    cases hrow' : db.pendingTarget runId t with
    | none => rfl
    | some m' =>
      obtain ⟨_, hnode, _⟩ := mem_pendingTarget hrow
      obtain ⟨_, hnode', _⟩ := mem_pendingTarget hrow'
      have hid : ∀ a b : NodeExecutionRow, a ∈ db.nodeExecutions → b ∈ db.nodeExecutions →
          a.nodeId ≠ b.nodeId → a.id ≠ b.id := by
        intro a b ha hb hne heq
        exact hne (congrArg _ (List.inj_on_of_nodup_map h.ids ha hb heq))
      have hne : m.id ≠ m'.id := hid m m' (mem_pendingTarget hrow).1 (mem_pendingTarget hrow').1
        (by rw [hnode, hnode']; exact hst)
      refine setNodes_comm (fun r _ hskip => ?_) (fun r _ hskip => ?_)
      · rw [Bool.and_eq_true, beq_iff_eq] at hskip
        simp [hskip.1, hne.symm]
      · rw [Bool.and_eq_true, beq_iff_eq] at hskip
        simp [hskip.1, hne]

end Db

/-- Writes of different executions. -/
def RowWrite.Apart : RowWrite → RowWrite → Prop
  | .update n u, .update m v => RowWrite.update n u = .update m v ∨
    (n.nodeId, n.iteration) ≠ (m.nodeId, m.iteration)
  | _, _ => True

/-- A write of a started execution, or a skip. -/
def RowWrite.Within (runId : ℕ) (keys : NodeExecutionRow → Prop) : RowWrite → Prop
  | .update n _ => ∀ r, r.runId = runId → r.nodeId = n.nodeId → r.iteration = n.iteration → keys r
  | .skip _ => True

theorem RowWrite.apply_comm {runId : ℕ} {keys : NodeExecutionRow → Prop} {db : Db}
    (h : db.Started keys) {x y : RowWrite} (hx : x.Within runId keys) (hy : y.Within runId keys)
    (hxy : x.Apart y) :
    apply runId (apply runId db x) y = apply runId (apply runId db y) x := by
  cases x with
  | update n u =>
    cases y with
    | update m v =>
      rcases hxy with heq | hne
      · rw [heq]
      · exact Db.updateNodeExecution_comm db hne.symm v u
    | skip target => exact Db.skipTarget_updateNodeExecution h hx u target
  | skip target =>
    cases y with
    | update m v => exact (Db.skipTarget_updateNodeExecution h hy v target).symm
    | skip other => exact Db.skipTarget_comm h target other

section Children
variable {config : Config} {env : Surroundings} {db₀ db : Db} {run : RunRow} {orchestration : ℕ}
  {children l l' : List (NodeExecutionRow × ℕ)} {outcome view : ℕ → AgentRunState}

/-- The executions of the children. -/
def ChildKey (run : RunRow) (children : List (NodeExecutionRow × ℕ)) (r : NodeExecutionRow) : Prop :=
  ∃ c ∈ children, r.runId = run.id ∧ r.nodeId = c.1.nodeId ∧ r.iteration = c.1.iteration

def childWrites (config : Config) (env : Surroundings) (graph : WorkflowGraph)
    (view : ℕ → AgentRunState) (c : NodeExecutionRow × ℕ) : List RowWrite :=
  RowWrite.ofProjection c.1 (projection config env graph (view c.2) c.1)

theorem projectAll_writes {runId : ℕ} {graph : WorkflowGraph}
    (hwaits : ∀ c ∈ l, (projection config env graph (view c.2) c.1).waits = false) :
    db.projectAll config env runId graph view l =
      (l.flatMap (childWrites config env graph view)).foldl (RowWrite.apply runId) db := by
  induction l generalizing db with
  | nil => rfl
  | cons c rest ih =>
    rw [List.flatMap_cons, List.foldl_append, childWrites,
      RowWrite.foldl_ofProjection _ _ _ (hwaits c List.mem_cons_self),
      ← ih fun d hd => hwaits d (List.mem_cons_of_mem c hd)]
    rfl

theorem mem_childWrites {graph : WorkflowGraph} {c : NodeExecutionRow × ℕ} {w : RowWrite}
    (h : w ∈ childWrites config env graph view c) :
    (∃ u, (projection config env graph (view c.2) c.1).update = some u ∧ w = .update c.1 u) ∨
      ∃ target, w = .skip target := by
  rw [childWrites, RowWrite.ofProjection, List.mem_append] at h
  rcases h with h | h
  · rw [Option.mem_toList, Option.map_eq_some_iff] at h
    obtain ⟨u, hu, rfl⟩ := h
    exact Or.inl ⟨u, hu, rfl⟩
  · obtain ⟨target, _, rfl⟩ := List.mem_map.mp h
    exact Or.inr ⟨target, rfl⟩

/-- Different children have different executions. -/
theorem Beside.key_ne (hp : Beside db₀ run orchestration children outcome)
    {c d : NodeExecutionRow × ℕ} (hc : c ∈ children) (hd : d ∈ children) (hne : c ≠ d) :
    (c.1.nodeId, c.1.iteration) ≠ (d.1.nodeId, d.1.iteration) := by
  intro hkey
  obtain ⟨hnode, hiteration⟩ := Prod.mk.inj hkey
  obtain ⟨hmem, hown⟩ := Db.mem_ownExecutions.mp (hp.own hc)
  obtain ⟨hmem', hown'⟩ := Db.mem_ownExecutions.mp (hp.own hd)
  have hrow : c.1 = d.1 := List.inj_on_of_nodup_map hp.keys.keys hmem hmem'
    (by rw [hown, hown', hnode, hiteration])
  exact hne (List.inj_on_of_nodup_map hp.once hc hd (by rw [hrow]))

theorem childWrites_apart (hp : Beside db₀ run orchestration children outcome)
    {c d : NodeExecutionRow × ℕ} (hc : c ∈ children) (hd : d ∈ children) {x y : RowWrite}
    (hx : x ∈ childWrites config env run.graph view c)
    (hy : y ∈ childWrites config env run.graph view d) : x.Apart y := by
  rcases mem_childWrites hx with ⟨u, hu, rfl⟩ | ⟨target, rfl⟩
  · rcases mem_childWrites hy with ⟨v, hv, rfl⟩ | ⟨target, rfl⟩
    · by_cases hsame : c = d
      · subst hsame
        rw [hu] at hv
        exact Or.inl (by rw [Option.some.inj hv])
      · exact Or.inr (hp.key_ne hc hd hsame)
    · exact trivial
  · cases y <;> exact trivial

theorem childWrites_within {c : NodeExecutionRow × ℕ} (hc : c ∈ children) {x : RowWrite}
    (hx : x ∈ childWrites config env run.graph view c) :
    x.Within run.id (ChildKey run children) := by
  rcases mem_childWrites hx with ⟨u, _, rfl⟩ | ⟨target, rfl⟩
  · exact fun r hrun hnode hiteration => ⟨c, hc, hrun, hnode, hiteration⟩
  · exact trivial

theorem Beside.started (hp : Beside db₀ run orchestration children outcome) :
    db₀.Started (ChildKey run children) := by
  refine ⟨hp.keys.ids, fun r hr ⟨c, hc, hrun, hnode, hiteration⟩ => ?_⟩
  obtain ⟨hmem, hown⟩ := Db.mem_ownExecutions.mp (hp.own hc)
  obtain rfl : r = c.1 := List.inj_on_of_nodup_map hp.keys.keys hr hmem
    (by rw [hrun, hown, hnode, hiteration])
  exact active_started (hp.active c hc)

/-- The order in which a call sees its agent runs does not matter, unless a router waits. -/
theorem projectAll_perm (hp : Beside db₀ run orchestration children outcome)
    (hstarted : db.Started (ChildKey run children)) (hperm : l.Perm l')
    (hl : ∀ c ∈ l, c ∈ children)
    (hwaits : ∀ c ∈ l, (projection config env run.graph (view c.2) c.1).waits = false) :
    db.projectAll config env run.id run.graph view l =
      db.projectAll config env run.id run.graph view l' := by
  rw [projectAll_writes hwaits, projectAll_writes fun c hc => hwaits c (hperm.mem_iff.mpr hc)]
  refine foldl_perm (fun x w hx => hx.apply w) (hperm.flatMap_right _) (fun x hx y hy z hz => ?_)
    hstarted
  obtain ⟨c, hc, hxc⟩ := List.mem_flatMap.mp hx
  obtain ⟨d, hd, hyd⟩ := List.mem_flatMap.mp hy
  exact RowWrite.apply_comm hz (childWrites_within (hl c hc) hxc)
    (childWrites_within (hl d hd) hyd) (childWrites_apart hp (hl c hc) (hl d hd) hxc hyd)

/-- An execution waits for what its agent run asks. -/
def Db.markAsking (runId : ℕ) (n : NodeExecutionRow) (db : Db) : Db :=
  db.updateNodeExecution runId n.nodeId n.iteration askingUpdate

theorem updateNodeExecution_markAsking (runId : ℕ) (n : NodeExecutionRow) (u : NodeExecutionUpdate) :
    (db.markAsking runId n).updateNodeExecution runId n.nodeId n.iteration u =
      db.updateNodeExecution runId n.nodeId n.iteration u := by
  have hrows : (db.markAsking runId n).updateNodeExecution runId n.nodeId n.iteration u =
      { db with nodeExecutions := updateWhere _ _ (updateWhere _ _ db.nodeExecutions) } := rfl
  rw [hrows, updateWhere_absorb]
  · rfl
  · intro r hr
    refine ⟨hr, ?_, rfl⟩
    simp only [Bool.and_eq_true] at hr ⊢
    exact ⟨hr.1, rfl⟩

/-- The end of an agent run is written whatever it asked before. -/
theorem project_markAsking {runId : ℕ} {n : NodeExecutionRow} {p : Projection}
    (hupdate : p.update ≠ none) :
    (db.markAsking runId n).project runId n p = db.project runId n p := by
  obtain ⟨u, hu⟩ := Option.ne_none_iff_exists'.mp hupdate
  have hupdated : (db.markAsking runId n).updated runId n p.update = db.updated runId n p.update := by
    rw [hu]
    exact updateNodeExecution_markAsking runId n u
  rw [Db.project, Db.project, hupdated]

/-- What one agent run asks has no part in the observation of another. -/
theorem project_markAsking_comm (hp : Beside db₀ run orchestration children outcome)
    (hstarted : db.Started (ChildKey run children)) {c d : NodeExecutionRow × ℕ}
    (hc : c ∈ children) (hd : d ∈ children) (hne : c ≠ d)
    (hwaits : (projection config env run.graph (view d.2) d.1).waits = false) :
    (db.markAsking run.id c.1).project run.id d.1 (projection config env run.graph (view d.2) d.1) =
      (db.project run.id d.1 (projection config env run.graph (view d.2) d.1)).markAsking
        run.id c.1 := by
  have hmark : (RowWrite.update c.1 askingUpdate).Within run.id (ChildKey run children) :=
    fun r hrun hnode hiteration => ⟨c, hc, hrun, hnode, hiteration⟩
  rw [← RowWrite.foldl_ofProjection run.id _ d.1 hwaits, ← RowWrite.foldl_ofProjection run.id _ d.1 hwaits]
  apply foldl_step_comm (m := .update c.1 askingUpdate) (fun x w hx => hx.apply w) _ hstarted
  intro x hx y hy
  apply RowWrite.apply_comm hy hmark (childWrites_within hd hx)
  rcases mem_childWrites hx with ⟨u, _, rfl⟩ | ⟨target, rfl⟩
  · exact Or.inr (hp.key_ne hc hd hne)
  · exact trivial

end Children

end VibeKanban.Runtime
