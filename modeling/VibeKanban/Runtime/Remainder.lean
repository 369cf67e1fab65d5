import VibeKanban.Runtime.Commute

/-! Whatever agent runs asked for while others ended, what is left to observe leads to one database. -/
namespace VibeKanban.Runtime
open Lib Workflow Router

variable {config : Config} {env : Surroundings} {db₀ db : Db} {run : RunRow} {orchestration : ℕ}
  {children l l' : List (NodeExecutionRow × ℕ)} {outcome view : ℕ → AgentRunState} {S B : List ℕ}
  {f : NodeExecutionRow → NodeExecutionRow}

theorem projection_update {graph : WorkflowGraph} {state : AgentRunState} {n : NodeExecutionRow}
    (hroutes : Routes graph n) (hends : state.status.isTerminal = true) :
    (projection config env graph state n).update ≠ none := by
  cases hstatus : state.status with
  | succeeded =>
    by_cases hcondition : n.nodeType = .condition
    · obtain ⟨node, hnode, _⟩ := hroutes hcondition
      rw [projection_condition hstatus hcondition hnode, Projection.ofCompletion]
      split_ifs
      · exact Option.some_ne_none _
      · exact Option.some_ne_none _
    · rw [projection, hstatus]
      simp only [if_neg hcondition]
      exact Option.some_ne_none _
  | cancelled | failed | crashed | auditFailed =>
    rw [projection, hstatus]
    exact Option.some_ne_none _
  | _ => simp [hstatus, AgentRunStatus.isTerminal] at hends

theorem Db.Started.project {keys : NodeExecutionRow → Prop} (h : db.Started keys) {runId : ℕ}
    {n : NodeExecutionRow} {p : Projection} (hwaits : p.waits = false) :
    (db.project runId n p).Started keys := by
  rw [← RowWrite.foldl_ofProjection runId db n hwaits]
  exact foldl_invariant (fun x w hx => hx.apply w) h _

/-- What an agent run asked is forgotten when its end is among those that are observed. -/
theorem projectAll_markAsking (hp : Beside db₀ run orchestration children outcome)
    (hstarted : db.Started (ChildKey run children)) (hl : ∀ d ∈ l, d ∈ children)
    (hwaits : ∀ d ∈ l, waitsFirst config env run outcome d = false)
    {c : NodeExecutionRow × ℕ} (hc : c ∈ l) :
    (db.markAsking run.id c.1).projectAll config env run.id run.graph outcome l =
      db.projectAll config env run.id run.graph outcome l := by
  induction l generalizing db with
  | nil => cases hc
  | cons d rest ih =>
    have hd := hl d List.mem_cons_self
    rw [Db.projectAll, Db.projectAll, List.foldl_cons, List.foldl_cons]
    by_cases hsame : c = d
    · rw [hsame, project_markAsking (projection_update (hp.routes d hd) (hp.ends d hd))]
    · have hrest := List.mem_of_ne_of_mem hsame hc
      rw [project_markAsking_comm hp hstarted (hl c hc) hd hsame (hwaits d List.mem_cons_self)]
      exact ih (hstarted.project (hwaits d List.mem_cons_self))
        (fun e he => hl e (List.mem_cons_of_mem d he))
        (fun e he => hwaits e (List.mem_cons_of_mem d he)) hrest

/-- Before the rest of the agent runs are seen to end, a call only writes the ends it sees. -/
theorem projectAll_asked (hp : Beside db₀ run orchestration children outcome)
    (hf : Sighted config env db₀ run children outcome S f)
    (hwaits : ∀ c ∈ children, waitsFirst config env run outcome c = false)
    (hstarted : db.Started (ChildKey run children)) (hl : ∀ c ∈ l, c ∈ children ∧ c.2 ∉ S)
    (hl' : ∀ c ∈ l', c ∈ children) (hrest : ∀ c ∈ l, c.2 ∉ S ++ B → c ∈ l') :
    (db.projectAll config env run.id run.graph (sightView db₀ outcome (S ++ B))
        (l.map fun c => (f c.1, c.2))).projectAll config env run.id run.graph outcome l' =
      db.projectAll config env run.id run.graph outcome
        ((l.filter fun c => c.2 ∈ S ++ B) ++ l') := by
  induction l generalizing db with
  | nil => rfl
  | cons c rest ih =>
    obtain ⟨hc, hS⟩ := hl c List.mem_cons_self
    have ih' := fun db hstarted => @ih db hstarted (fun d hd => hl d (List.mem_cons_of_mem c hd))
      fun d hd => hrest d (List.mem_cons_of_mem c hd)
    have hsame := hf.same c.1 (Db.mem_ownExecutions.mp (hp.own hc)).1
    have hkey : ∀ p, db.project run.id (f c.1) p = db.project run.id c.1 p := by
      intro p
      have hupdated : db.updated run.id (f c.1) p.update = db.updated run.id c.1 p.update := by
        cases p.update with
        | none => rfl
        | some u =>
          change db.updateNodeExecution run.id (f c.1).nodeId (f c.1).iteration u = _
          rw [hsame.nodeId, hsame.iteration]
          rfl
      rw [Db.project, Db.project, hupdated]
    have hcons : db.projectAll config env run.id run.graph (sightView db₀ outcome (S ++ B))
        ((c :: rest).map fun c => (f c.1, c.2)) =
      (db.project run.id (f c.1) (projection config env run.graph
        (sightView db₀ outcome (S ++ B) c.2) (f c.1))).projectAll config env run.id run.graph
          (sightView db₀ outcome (S ++ B)) (rest.map fun c => (f c.1, c.2)) := rfl
    rw [hcons, List.filter_cons]
    by_cases hT : c.2 ∈ S ++ B
    · have hend : projection config env run.graph (outcome c.2) (f c.1) =
          projection config env run.graph (outcome c.2) c.1 :=
        projection_congr (hp.ends c hc) hsame.nodeType hsame.nodeId
          (by rw [(hf.unseen c hc hS).outputText])
      rw [if_pos (decide_eq_true hT), sightView_seen hT, hend, hkey,
        ih' _ (hstarted.project (hwaits c hc))]
      rfl
    · rw [if_neg (by simpa using hT)]
      rcases @projection_open config env run.graph _ (sightView_unseen hp hc hT) (f c.1) with h | h
      · rw [h]
        exact ih' db hstarted
      · rw [h, hkey]
        have hmarked : (db.markAsking run.id c.1).Started (ChildKey run children) :=
          hstarted.apply (.update c.1 askingUpdate)
        have hmark : db.project run.id c.1 ⟨some askingUpdate, false, []⟩ = db.markAsking run.id c.1 := rfl
        rw [hmark, ih' _ hmarked]
        apply projectAll_markAsking hp hstarted
        · intro d hd
          rcases List.mem_append.mp hd with hd | hd
          · exact (hl d (List.mem_cons_of_mem c (List.mem_of_mem_filter hd))).1
          · exact hl' d hd
        · intro d hd
          rcases List.mem_append.mp hd with hd | hd
          · exact hwaits d (hl d (List.mem_cons_of_mem c (List.mem_of_mem_filter hd))).1
          · exact hwaits d (hl' d hd)
        · exact List.mem_append_right _ (hrest c List.mem_cons_self hT)

section Congr
variable {x y : Db} {runId : ℕ} {graph : WorkflowGraph}

theorem skipTargets_congr (h : x.nodeExecutions = y.nodeExecutions) (targets : List String) :
    (targets.foldl (fun db target => db.skipTarget runId target) x).nodeExecutions =
      (targets.foldl (fun db target => db.skipTarget runId target) y).nodeExecutions := by
  induction targets generalizing x y with
  | nil => exact h
  | cons target rest ih =>
    rw [List.foldl_cons, List.foldl_cons]
    apply ih
    have htarget : x.pendingTarget runId target = y.pendingTarget runId target := by
      rw [Db.pendingTarget_eq, Db.pendingTarget_eq, h]
    rw [Db.skipTarget, Db.skipTarget, htarget]
    cases y.pendingTarget runId target with
    | none => exact h
    | some n => exact congrArg (updateWhere _ _) h

theorem projectAll_congr (h : x.nodeExecutions = y.nodeExecutions) :
    (x.projectAll config env runId graph view l).nodeExecutions =
      (y.projectAll config env runId graph view l).nodeExecutions := by
  induction l generalizing x y with
  | nil => exact h
  | cons c rest ih =>
    rw [Db.projectAll, Db.projectAll, List.foldl_cons, List.foldl_cons]
    apply ih
    rw [Db.project, Db.project]
    apply skipTargets_congr
    have hupdated : ∀ u, (x.updated runId c.1 u).nodeExecutions = (y.updated runId c.1 u).nodeExecutions := by
      intro u
      cases u with
      | none => exact h
      | some u => exact congrArg (updateWhere _ _) h
    split_ifs
    · exact hupdated _
    · exact hupdated _

end Congr

theorem updateRunStatus_awaitingHuman (db : Db) (runId : ℕ) :
    ((db.updateRunStatus runId .awaitingHuman none none).updateRunStatus runId .running none none).runs =
      (db.updateRunStatus runId .running none none).runs := by
  apply updateWhere_absorb
  intro r hr
  obtain ⟨hid, hawake⟩ : (r.id == runId && !r.status.isTerminal) = true ∧ r.status ≠ .cancelling := by
    simpa using hr
  rw [Bool.and_eq_true] at hid
  refine ⟨?_, ?_, rfl⟩
  · simp [hid, hawake]
  · simp only [hid.1]
    rfl

/-- The ends of the agent runs that are not in `S` lead to the same executions as all ends, and a run
that is driven after them is the same one. -/
structure Leads (config : Config) (env : Surroundings) (db₀ : Db) (run : RunRow)
    (children : List (NodeExecutionRow × ℕ)) (outcome : ℕ → AgentRunState) (S : List ℕ) (db : Db) :
    Prop where
  frame : db = { db₀ with
    nodeExecutions := db.nodeExecutions
    runs := db.runs
    orchestration := (db₀.reach outcome S).orchestration }
  runs : (db.updateRunStatus run.id .running none none).runs =
    (db₀.updateRunStatus run.id .running none none).runs
  rest : ∀ l, l.Perm (children.filter fun c => c.2 ∉ S) →
    (db.projectAll config env run.id run.graph outcome l).nodeExecutions =
      (db₀.projectAll config env run.id run.graph outcome children).nodeExecutions

theorem leads_initial (hp : Beside db₀ run orchestration children outcome)
    (hwaits : ∀ c ∈ children, waitsFirst config env run outcome c = false) :
    Leads config env db₀ run children outcome [] db₀ := by
  refine ⟨?_, rfl, fun l hl => ?_⟩
  · simp [Db.reach, reached, updateWhere]
  · have hall : (children.filter fun c => c.2 ∉ ([] : List ℕ)) = children :=
      List.filter_eq_self.mpr fun c _ => by simp
    rw [hall] at hl
    rw [projectAll_perm hp hp.started hl (fun c hc => hl.mem_iff.mp hc)
      fun c hc => hwaits c (hl.mem_iff.mp hc)]

theorem Leads.await (h : Leads config env db₀ run children outcome S db) :
    Leads config env db₀ run children outcome S (db.updateRunStatus run.id .awaitingHuman none none) := by
  refine ⟨?_, ?_, fun l hl => ?_⟩
  · conv_lhs => rw [h.frame]
    rfl
  · rw [updateRunStatus_awaitingHuman, h.runs]
  · rw [← h.rest l hl]
    exact projectAll_congr rfl

theorem Seen.started (hp : Beside db₀ run orchestration children outcome)
    (hseen : Seen config env db₀ run children outcome S f db)
    (hended : ∀ c ∈ children, c.2 ∈ S → nodeTerminal (f c.1).status = true) :
    db.Started (ChildKey run children) := by
  refine ⟨(hp.keys.of_map hseen.rows hseen.sighted.same hseen.nextId).ids, ?_⟩
  rintro r hr ⟨c, hc, hrun, hnode, hiteration⟩
  rw [hseen.rows, List.mem_map] at hr
  obtain ⟨n, hn, rfl⟩ := hr
  have hsame := hseen.sighted.same n hn
  obtain ⟨hmem, hown⟩ := Db.mem_ownExecutions.mp (hp.own hc)
  obtain rfl : n = c.1 := List.inj_on_of_nodup_map hp.keys.keys hn hmem
    (by rw [← hsame.runId, ← hsame.nodeId, ← hsame.iteration, hrun, hnode, hiteration, hown])
  by_cases hS : c.2 ∈ S
  · intro hpending
    have hterminal := hended c hc hS
    rw [hpending] at hterminal
    cases hterminal
  · exact active_started ((hseen.sighted.unseen c hc hS).active (hp.active c hc))

/-- When no router waits at its first look, those that were seen have ended and no other waits. -/
theorem Seen.quiet (hp : Beside db₀ run orchestration children outcome)
    (hwaits : ∀ c ∈ children, waitsFirst config env run outcome c = false)
    (hseen : Seen config env db₀ run children outcome S f db)
    (hended : ∀ c ∈ children, c.2 ∈ S → nodeTerminal (f c.1).status = true)
    {c : NodeExecutionRow × ℕ} (hc : c ∈ children) (hactive : nodeActive (f c.1).status = true) :
    (projection config env run.graph (outcome c.2) (f c.1)).waits = false := by
  by_cases hS : c.2 ∈ S
  · have hterminal := hended c hc hS
    cases hs : (f c.1).status <;> simp [hs, nodeTerminal, nodeActive] at hterminal hactive
  · have hsame := hseen.sighted.same c.1 (Db.mem_ownExecutions.mp (hp.own hc)).1
    rw [projection_congr (hp.ends c hc) hsame.nodeType hsame.nodeId
      (by rw [(hseen.sighted.unseen c hc hS).outputText])]
    exact hwaits c hc

/-- A call that sees a batch leaves the rest. -/
theorem Leads.batch (hp : Beside db₀ run orchestration children outcome)
    (hwaits : ∀ c ∈ children, waitsFirst config env run outcome c = false)
    (hseen : Seen config env db₀ run children outcome S f db)
    (hended : ∀ c ∈ children, c.2 ∈ S → nodeTerminal (f c.1).status = true)
    (h : Leads config env db₀ run children outcome S db) :
    Leads config env db₀ run children outcome (S ++ B)
      (called config env db₀ run children outcome S B f db) := by
  have hf := hseen.sighted
  have hasked : asked children f = (children.filter fun c => c.2 ∉ S).map fun c => (f c.1, c.2) := by
    rw [asked]
    congr 1
    refine List.filter_congr fun c hc => ?_
    by_cases hS : c.2 ∈ S
    · have hterminal := hended c hc hS
      cases hs : (f c.1).status <;> simp [hs, nodeTerminal, nodeActive, hS] at hterminal ⊢
    · simp [(hf.unseen c hc hS).active (hp.active c hc), hS]
  have hquiet : ∀ d ∈ asked children f, (projection config env run.graph
      (sightView db₀ outcome (S ++ B) d.2) d.1).waits = false := by
    intro d hd
    obtain ⟨c, hc, hactive, rfl⟩ := mem_asked.mp hd
    by_cases hT : c.2 ∈ S ++ B
    · rw [sightView_seen hT]
      exact hseen.quiet hp hwaits hended hc hactive
    · rcases @projection_open config env run.graph _ (sightView_unseen hp hc hT) (f c.1) with h | h
      · rw [h]
        rfl
      · rw [h]
  have hruns : (called config env db₀ run children outcome S B f db).runs = db.runs :=
    projectAll_runs hquiet
  refine ⟨?_, ?_, fun l hl => ?_⟩
  · have hreached : db.reach outcome B = { db₀ with
        nodeExecutions := db.nodeExecutions
        runs := db.runs
        orchestration := (db₀.reach outcome (S ++ B)).orchestration } := by
      conv_lhs => rw [h.frame]
      rw [← reach_append]
      rfl
    exact (projectAll_frame run.id (asked children f)).trans (congrArg (fun d : Db => { d with
      nodeExecutions := (called config env db₀ run children outcome S B f db).nodeExecutions
      runs := (called config env db₀ run children outcome S B f db).runs }) hreached)
  · rw [← h.runs]
    exact congrArg (updateWhere _ _) hruns
  · have hsplit : (((children.filter fun c => c.2 ∉ S).filter fun c => c.2 ∈ S ++ B) ++ l).Perm
        (children.filter fun c => c.2 ∉ S) := by
      have hparts := List.filter_append_perm (fun c : NodeExecutionRow × ℕ => c.2 ∈ S ++ B)
        (children.filter fun c => c.2 ∉ S)
      refine List.Perm.trans (List.Perm.append_left _ (hl.trans (List.Perm.of_eq ?_))) hparts
      rw [List.filter_filter]
      refine List.filter_congr fun c _ => ?_
      by_cases hS : c.2 ∈ S
      · simp [hS]
      · simp [hS]
    have hstarted : (db.reach outcome B).Started (ChildKey run children) :=
      ⟨(hseen.started hp hended).ids, (hseen.started hp hended).started⟩
    rw [called, hasked, projectAll_asked hp hf hwaits hstarted, ← h.rest _ hsplit]
    · exact projectAll_congr rfl
    · intro c hc
      have hc := List.mem_filter.mp hc
      exact ⟨hc.1, by simpa using hc.2⟩
    · intro c hc
      exact List.mem_of_mem_filter (hl.mem_iff.mp hc)
    · intro c hc hT
      rw [hl.mem_iff]
      exact List.mem_filter.mpr ⟨List.mem_of_mem_filter hc, by simpa using hT⟩

/-- When all agent runs have ended, the run that is driven is the same whatever the order. -/
theorem Leads.all (h : Leads config env db₀ run children outcome S db)
    (hS : S.Perm (children.map (·.2))) :
    db.updateRunStatus run.id .running none none = { db₀ with
      nodeExecutions := (db₀.projectAll config env run.id run.graph outcome children).nodeExecutions
      runs := (db₀.updateRunStatus run.id .running none none).runs
      orchestration := (db₀.reach outcome (children.map (·.2))).orchestration } := by
  have hnone : (children.filter fun c => c.2 ∉ S) = [] := by
    rw [List.filter_eq_nil_iff]
    intro c hc
    simp [hS.mem_iff.mpr (List.mem_map_of_mem hc)]
  have hrest := h.rest [] (by rw [hnone])
  have hrows : db.nodeExecutions =
      (db₀.projectAll config env run.id run.graph outcome children).nodeExecutions := hrest
  have hruns := h.runs
  have hframe : db.updateRunStatus run.id .running none none = { db with
    runs := (db.updateRunStatus run.id .running none none).runs } := rfl
  rw [hframe, hruns]
  conv_lhs => rw [h.frame]
  rw [hrows, reach_congr fun a => hS.mem_iff]

end VibeKanban.Runtime
