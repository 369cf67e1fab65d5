import VibeKanban.Runtime.Children

/-! What one reconciliation call does to a run whose agent runs end one after another. -/
namespace VibeKanban.Runtime
open Lib Workflow Router

section Play
variable {config : Config} {env : Surroundings} {runId passes : ℕ} {db : Db} {run : RunRow}

theorem play_loadRuntimeRun (h : db.run? runId = some run) :
    (loadRuntimeRun runId).play (Stmt.observe config env) db = some (.ok run, db) := by
  refine (Prog.play_bind (a := db.run? runId) rfl).trans ?_
  rw [h]
  rfl

/-- The boundary of a call: the agent runs it asks about are projected. -/
theorem play_reconcileBoundary {orchestration : ℕ} {view : ℕ → AgentRunState}
    {seen : List (NodeExecutionRow × ℕ)} (hrun : db.run? runId = some run)
    (hcanonical : run.orchestrationRunId = some orchestration)
    (hlinked : db.linkedExecutions runId orchestration = seen)
    (hviews : Views run.graph view db seen) :
    (reconcileBoundary config runId).play (Stmt.observe config env) db =
      some (.ok ((summary config env run.graph view seen).conclude
          (!seen.isEmpty && seen.all fun c => !(view c.2).status.isUnderWay)),
        db.projectAll config env runId run.graph view seen) := by
  refine (Prog.play_bind (a := (db.run? runId).bind (·.orchestrationRunId)) rfl).trans ?_
  rw [hrun, Option.bind_some, hcanonical]
  refine (Prog.play_bind (a := ()) (y := db) rfl).trans ?_
  refine (Prog.play_bind (a := db.arenaRuns runId) rfl).trans ?_
  have harenas : (Prog.forEach (fun arena : ℕ =>
      Program.require (Program.exec (.port (.reconcileOrchestration arena))))
        (db.arenaRuns runId)).play (Stmt.observe config env) db = some (.ok (), db) := by
    rw [Prog.play_forEach (f := fun db _ => db) fun _ _ => rfl, List.foldl_fixed]
  refine (Prog.play_bind harenas).trans ?_
  refine (Prog.play_bind (play_loadRuntimeRun hrun)).trans ?_
  refine (Prog.play_bind (a := db.linkedExecutions runId orchestration) rfl).trans ?_
  rw [hlinked]
  exact play_reconcileExecutions hviews _

/-- What a call does with the outcome of its boundary. -/
def conclusion (config : Config) (passes runId : ℕ) (run : RunRow)
    (outcome : AgentRunReconciliationResult) : Program Unit :=
  if outcome.failed then do
    markPendingNodesSkipped runId
    updateRunStatus runId .failed none (some "Workflow agent execution failed")
  else if outcome.awaitingHuman then updateRunStatus runId .awaitingHuman none none
  else if outcome.cancelled then reconcileCancelling runId
  else if outcome.completed then do
    updateRunStatus runId .running none none
    driveWorkflowRun config runId run.graph run.inputText passes
  else return ()

section Conclusion
variable {result : AgentRunReconciliationResult} (settled : Bool)

theorem conclusion_failed (h : result.failed = true) :
    conclusion config passes runId run (result.conclude settled) = (do
      markPendingNodesSkipped runId
      updateRunStatus runId .failed none (some "Workflow agent execution failed")) := if_pos h

theorem conclusion_waits (hfailed : result.failed = false) (h : result.awaitingHuman = true) :
    conclusion config passes runId run (result.conclude settled) =
      updateRunStatus runId .awaitingHuman none none :=
  (if_neg (Bool.eq_false_iff.mp hfailed)).trans (if_pos h)

theorem conclusion_cancelled (hfailed : result.failed = false)
    (hwaits : result.awaitingHuman = false) (h : result.cancelled = true) :
    conclusion config passes runId run (result.conclude settled) = reconcileCancelling runId :=
  (if_neg (Bool.eq_false_iff.mp hfailed)).trans
    ((if_neg (Bool.eq_false_iff.mp hwaits)).trans (if_pos h))

theorem conclusion_succeeded (hfailed : result.failed = false)
    (hwaits : result.awaitingHuman = false) (hcancelled : result.cancelled = false) :
    conclusion config passes runId run (result.conclude settled) =
      if settled then do
        updateRunStatus runId .running none none
        driveWorkflowRun config runId run.graph run.inputText passes
      else return () := by
  have hcompleted : (result.conclude settled).completed = settled := by
    simp [AgentRunReconciliationResult.conclude, hfailed, hwaits, hcancelled]
  refine (if_neg (Bool.eq_false_iff.mp hfailed)).trans
    ((if_neg (Bool.eq_false_iff.mp hwaits)).trans
      ((if_neg (Bool.eq_false_iff.mp hcancelled)).trans ?_))
  rw [hcompleted]

end Conclusion

theorem play_reconcileWorkflowRun {orchestration : ℕ} {view : ℕ → AgentRunState}
    {seen : List (NodeExecutionRow × ℕ)} (hrun : db.run? runId = some run)
    (hopen : reconcilable (db.queuePhase? runId) run.status = true)
    (hcanonical : run.orchestrationRunId = some orchestration)
    (hlinked : db.linkedExecutions runId orchestration = seen)
    (hviews : Views run.graph view db seen) :
    (reconcileWorkflowRun config passes runId).play (Stmt.observe config env) db =
      (conclusion config passes runId run ((summary config env run.graph view seen).conclude
          (!seen.isEmpty && seen.all fun c => !(view c.2).status.isUnderWay))).play
        (Stmt.observe config env) (db.projectAll config env runId run.graph view seen) := by
  refine (Prog.play_bind (play_loadRuntimeRun hrun)).trans ?_
  refine (Prog.play_bind (a := db.queuePhase? runId) rfl).trans ?_
  rw [hopen]
  exact Prog.play_bind (play_reconcileBoundary hrun hcanonical hlinked hviews)

/-- A run that no call works on. -/
theorem play_reconcileWorkflowRun_closed (hrun : db.run? runId = some run)
    (hclosed : reconcilable (db.queuePhase? runId) run.status = false) :
    (reconcileWorkflowRun config passes runId).play (Stmt.observe config env) db =
      some (.ok (), db) := by
  refine (Prog.play_bind (play_loadRuntimeRun hrun)).trans ?_
  refine (Prog.play_bind (a := db.queuePhase? runId) rfl).trans ?_
  rw [hclosed]
  rfl

theorem play_markPendingNodesSkipped :
    (markPendingNodesSkipped runId).play (Stmt.observe config env) db =
      some (.ok (), (db.pendingExecutions runId).foldl
        (fun db n => db.skipPendingExecution n.id) db) :=
  (Prog.play_bind (a := db.pendingExecutions runId) rfl).trans
    (Prog.play_forEach (fun _ _ => rfl) _ _)

theorem play_reconcileCancelling :
    (reconcileCancelling runId).play (Stmt.observe config env) db = some (.ok (),
      if (db.cancelSettledArenas runId).ownExecutions runId |>.any fun n => nodeActive n.status then
        db.cancelSettledArenas runId
      else ((db.cancelSettledArenas runId).setPendingNodes runId .cancelled).updateRunStatus runId
        .canceled none (some "Workflow run canceled")) := by
  refine (Prog.play_bind (a := ()) (y := db.cancelSettledArenas runId) rfl).trans ?_
  refine (Prog.play_bind (a := ((db.cancelSettledArenas runId).ownExecutions runId).any
    fun n => nodeActive n.status) rfl).trans ?_
  split_ifs
  · rfl
  · rfl

/-- A stopped run is not driven. -/
theorem play_driveWorkflowRun_stopped {graph : WorkflowGraph} {text : String}
    (hrun : db.run? runId = some run) (hstopped : run.status.isStopped = true) :
    (driveWorkflowRun config runId graph text (passes + 1)).play (Stmt.observe config env) db =
      some (.ok (), db) := by
  have hstatus : (fetchRunStatus runId).play (Stmt.observe config env) db =
      some (.ok run.status, db) := by
    refine (Prog.play_bind (a := db.runStatus? runId) rfl).trans ?_
    rw [Db.runStatus?, hrun]
    rfl
  have hturn : (driveTurn config runId graph text).play (Stmt.observe config env) db =
      some (.ok false, db) := by
    refine (Prog.play_bind hstatus).trans ?_
    rw [if_pos hstopped]
    rfl
  exact (Prog.play_bind hturn).trans rfl

end Play

/-- The status of a run after a write: a terminal run keeps its own, and a cancelling one is only
canceled. -/
def WorkflowRunStatus.next (status written : WorkflowRunStatus) : WorkflowRunStatus :=
  if !status.isTerminal && (decide (status ≠ .cancelling) ||
    decide (written = .cancelling ∨ written = .canceled)) then written else status

/-- The run stands at a status; its graph, input and orchestration are as they were. -/
def StandsAt (run : RunRow) (status : WorkflowRunStatus) (db : Db) : Prop :=
  ∃ r, db.run? run.id = some r ∧ r.graph = run.graph ∧ r.inputText = run.inputText ∧
    r.orchestrationRunId = run.orchestrationRunId ∧ r.status = status

section Status
variable {run : RunRow} {status : WorkflowRunStatus} {db db' : Db}

theorem StandsAt.runStatus (h : StandsAt run status db) : db.runStatus? run.id = some status := by
  obtain ⟨r, hr, _, _, _, rfl⟩ := h
  rw [Db.runStatus?, hr]
  rfl

theorem StandsAt.of_runs (h : StandsAt run status db) (hruns : db'.runs = db.runs) :
    StandsAt run status db' := by
  rw [StandsAt, Db.run?, hruns]
  exact h

theorem StandsAt.updateRunStatus (h : StandsAt run status db) (written : WorkflowRunStatus)
    (outputText errorText : Option String) : StandsAt run (status.next written)
      (db.updateRunStatus run.id written outputText errorText) := by
  obtain ⟨r, hr, hgraph, hinput, horchestration, rfl⟩ := h
  have hid : r.id = run.id := by simpa using List.find?_some hr
  have hfind := find_updateWhere RunRow.id (p := fun r => r.id == run.id &&
      !r.status.isTerminal && (decide (r.status ≠ .cancelling) ||
        decide (written = .cancelling ∨ written = .canceled)))
    (f := fun r => { r with status := written, outputText := outputText, errorText := errorText })
    (fun _ => rfl) db.runs run.id
  rw [Db.run?] at hr
  rw [hr, Option.map_some] at hfind
  refine ⟨_, hfind, ?_⟩
  rw [WorkflowRunStatus.next, hid]
  simp only [beq_self_eq_true, Bool.true_and]
  split_ifs
  · exact ⟨hgraph, hinput, horchestration, rfl⟩
  · exact ⟨hgraph, hinput, horchestration, rfl⟩

end Status

section Project
variable {config : Config} {env : Surroundings} {graph : WorkflowGraph}
  {view : ℕ → AgentRunState} {db : Db}

/-- The observations of a call write executions, and the run if a router waits. -/
theorem projectAll_frame (runId : ℕ) (seen : List (NodeExecutionRow × ℕ)) :
    db.projectAll config env runId graph view seen = { db with
      nodeExecutions := (db.projectAll config env runId graph view seen).nodeExecutions
      runs := (db.projectAll config env runId graph view seen).runs } := by
  induction seen generalizing db with
  | nil => rfl
  | cons c rest ih =>
    have hframe := Db.project_frame db runId c.1 (projection config env graph (view c.2) c.1)
    rw [Db.projectAll, List.foldl_cons, ← Db.projectAll, ih, hframe]

theorem projectAll_runs {runId : ℕ} {seen : List (NodeExecutionRow × ℕ)}
    (hquiet : ∀ c ∈ seen, (projection config env graph (view c.2) c.1).waits = false) :
    (db.projectAll config env runId graph view seen).runs = db.runs := by
  induction seen generalizing db with
  | nil => rfl
  | cons c rest ih =>
    have hframe := Db.project_frame db runId c.1 (projection config env graph (view c.2) c.1)
    rw [Db.projectAll, List.foldl_cons, ← Db.projectAll,
      ih fun d hd => hquiet d (List.mem_cons_of_mem c hd), hframe, hquiet c List.mem_cons_self]
    rfl

/-- A run waits after a call as soon as one of its routers waits. -/
theorem StandsAt.projectAll {run : RunRow} {status : WorkflowRunStatus}
    (h : StandsAt run status db) (seen : List (NodeExecutionRow × ℕ)) :
    ∃ status', StandsAt run status' (db.projectAll config env run.id graph view seen) ∧
      (status' = status ∨ (summary config env graph view seen).awaitingHuman = true ∧
        status' = status.next .awaitingHuman) := by
  induction seen generalizing db status with
  | nil => exact ⟨status, h, Or.inl rfl⟩
  | cons c rest ih =>
    have hframe := Db.project_frame db run.id c.1 (projection config env graph (view c.2) c.1)
    have hidem : (status.next .awaitingHuman).next .awaitingHuman = status.next .awaitingHuman := by
      cases status <;> rfl
    cases hwaits : (projection config env graph (view c.2) c.1).waits with
    | true =>
      have hstep : StandsAt run (status.next .awaitingHuman)
          (db.project run.id c.1 (projection config env graph (view c.2) c.1)) :=
        (h.updateRunStatus .awaitingHuman none none).of_runs (by rw [hframe, hwaits]; rfl)
      obtain ⟨status', hstands, hstatus⟩ := ih hstep
      refine ⟨status', hstands, Or.inr ⟨by simp [summary, hwaits], ?_⟩⟩
      rcases hstatus with rfl | ⟨_, rfl⟩
      · rfl
      · exact hidem
    | false =>
      have hstep : StandsAt run status
          (db.project run.id c.1 (projection config env graph (view c.2) c.1)) :=
        h.of_runs (by rw [hframe, hwaits]; rfl)
      obtain ⟨status', hstands, hstatus⟩ := ih hstep
      refine ⟨status', hstands, hstatus.imp_right fun hlater => ⟨?_, hlater.2⟩⟩
      have hcons : (summary config env graph view (c :: rest)).awaitingHuman =
        ((projection config env graph (view c.2) c.1).waits || (view c.2).status.asks ||
          (summary config env graph view rest).awaitingHuman) := rfl
      rw [hcons, hlater.1, Bool.or_true]

end Project

section Flags
variable {config : Config} {env : Surroundings} {db₀ : Db} {run : RunRow} {orchestration : ℕ}
  {children : List (NodeExecutionRow × ℕ)} {outcome : ℕ → AgentRunState} {S B : List ℕ}
  {f : NodeExecutionRow → NodeExecutionRow}

/-- What a call answers after `S`, with a new batch. -/
def flags (config : Config) (env : Surroundings) (db₀ : Db) (run : RunRow)
    (children : List (NodeExecutionRow × ℕ)) (outcome : ℕ → AgentRunState) (S B : List ℕ)
    (f : NodeExecutionRow → NodeExecutionRow) : AgentRunReconciliationResult :=
  summary config env run.graph (sightView db₀ outcome (S ++ B)) (asked children f)

/-- A router that waits at its first look. -/
def waitsFirst (config : Config) (env : Surroundings) (run : RunRow)
    (outcome : ℕ → AgentRunState) (c : NodeExecutionRow × ℕ) : Bool :=
  (projection config env run.graph (outcome c.2) c.1).waits

/-- A router that waits at every look. -/
def waitsAlways (config : Config) (env : Surroundings) (run : RunRow)
    (outcome : ℕ → AgentRunState) (c : NodeExecutionRow × ℕ) : Bool :=
  (lateProjection config env run.graph (outcome c.2) c.1).waits

/-- An agent run that waits for input or approval when the observations begin. -/
def asksFirst (db₀ : Db) (c : NodeExecutionRow × ℕ) : Bool :=
  (db₀.agentRun? c.2).any (·.status.asks)

variable (hp : Beside db₀ run orchestration children outcome)
  (hf : Sighted config env db₀ run children outcome S f)

include hp in
theorem sightView_asks {T : List ℕ} {c : NodeExecutionRow × ℕ} (hc : c ∈ children) (hT : c.2 ∉ T) :
    (sightView db₀ outcome T c.2).status.asks = asksFirst db₀ c := by
  obtain ⟨state, hstate, _⟩ := hp.stored c hc
  rw [sightView, if_neg hT, asksFirst, hstate]
  rfl

include hp hf in
/-- An unseen agent run is asked about. -/
theorem asked_unseen {c : NodeExecutionRow × ℕ} (hc : c ∈ children) (hS : c.2 ∉ S) :
    (f c.1, c.2) ∈ asked children f :=
  mem_asked.mpr ⟨c, hc, (hf.unseen c hc hS).active (hp.active c hc), rfl⟩

include hp hf in
/-- Only new ends show a terminal status that is not a success. -/
theorem any_asked {q : AgentRunStatus → Bool} (hopen : ∀ s, s.isTerminal = false → q s = false)
    (hsucceeded : q .succeeded = false) :
    ((asked children f).any fun c => q (sightView db₀ outcome (S ++ B) c.2).status) = true ↔
      ∃ c ∈ children, c.2 ∉ S ∧ c.2 ∈ B ∧ q (outcome c.2).status = true := by
  rw [List.any_eq_true]
  constructor
  · rintro ⟨d, hd, hq⟩
    obtain ⟨c, hc, hactive, rfl⟩ := mem_asked.mp hd
    dsimp only at hq
    by_cases hT : c.2 ∈ S ++ B
    · rw [sightView_seen hT] at hq
      have hS : c.2 ∉ S := by
        intro hS
        rcases hf.seen c hc hS with hended | ⟨_, _, hsuccess⟩
        · rcases SeenRow.inactive_or_waits (Or.inl hended) with ⟨hinactive, _⟩ | ⟨hwaits, _⟩
          · rw [hinactive] at hactive
            cases hactive
          · rw [hwaits] at hended
            cases hended.1
        · rw [hsuccess, hsucceeded] at hq
          cases hq
      exact ⟨c, hc, hS, (List.mem_append.mp hT).resolve_left hS, hq⟩
    · rw [hopen _ (sightView_unseen hp hc hT)] at hq
      cases hq
  · rintro ⟨c, hc, hS, hB, hq⟩
    refine ⟨(f c.1, c.2), asked_unseen hp hf hc hS, ?_⟩
    rw [sightView_seen (List.mem_append_right S hB)]
    exact hq

include hp hf in
theorem flags_failed : (flags config env db₀ run children outcome S B f).failed = true ↔
    ∃ c ∈ children, c.2 ∉ S ∧ c.2 ∈ B ∧ (outcome c.2).status.isFailure = true := by
  refine any_asked hp hf (q := AgentRunStatus.isFailure) (fun s hs => ?_) rfl
  cases s <;> first | rfl | cases hs

include hp hf in
theorem flags_cancelled : (flags config env db₀ run children outcome S B f).cancelled = true ↔
    ∃ c ∈ children, c.2 ∉ S ∧ c.2 ∈ B ∧ (outcome c.2).status = .cancelled := by
  have h := any_asked hp hf (B := B) (q := fun s => decide (s = .cancelled))
    (fun s hs => by cases s <;> first | rfl | cases hs) rfl
  simp only [decide_eq_true_eq] at h
  rw [← h, flags, summary]

include hp hf in
/-- A call waits for the routers that wait at their first look, those that still wait, and the agent
runs that ask for something. -/
theorem flags_awaitingHuman :
    (flags config env db₀ run children outcome S B f).awaitingHuman = true ↔
      ∃ c ∈ children, c.2 ∈ S ∧ waitsAlways config env run outcome c = true ∨
        c.2 ∉ S ∧ c.2 ∈ B ∧ waitsFirst config env run outcome c = true ∨
        c.2 ∉ S ++ B ∧ asksFirst db₀ c = true := by
  have hlook : ∀ c ∈ children, c.2 ∈ S → nodeActive (f c.1).status = true →
      projection config env run.graph (outcome c.2) (f c.1) =
        lateProjection config env run.graph (outcome c.2) c.1 := by
    intro c hc hS hactive
    have hsame := hf.same c.1 (Db.mem_ownExecutions.mp (hp.own hc)).1
    rcases (hf.seen c hc hS).inactive_or_waits with ⟨hinactive, _⟩ | ⟨_, hwarning⟩
    · rw [hinactive] at hactive
      cases hactive
    · exact projection_late (hp.ends c hc) hsame hwarning
  have hfirst : ∀ c ∈ children, c.2 ∉ S →
      (projection config env run.graph (outcome c.2) (f c.1)).waits =
        waitsFirst config env run outcome c := by
    intro c hc hS
    have hsame := hf.same c.1 (Db.mem_ownExecutions.mp (hp.own hc)).1
    rw [waitsFirst, projection_congr (hp.ends c hc) hsame.nodeType hsame.nodeId
      (by rw [(hf.unseen c hc hS).outputText])]
  have hends : ∀ c ∈ children, c.2 ∈ S ++ B →
      (sightView db₀ outcome (S ++ B) c.2).status.asks = false := by
    intro c hc hT
    rw [sightView_seen hT]
    exact AgentRunStatus.not_asks (hp.ends c hc)
  rw [flags, summary, List.any_eq_true]
  constructor
  · rintro ⟨d, hd, hwaits⟩
    obtain ⟨c, hc, hactive, rfl⟩ := mem_asked.mp hd
    dsimp only at hwaits
    by_cases hT : c.2 ∈ S ++ B
    · rw [hends c hc hT, Bool.or_false, sightView_seen hT] at hwaits
      by_cases hS : c.2 ∈ S
      · rw [hlook c hc hS hactive] at hwaits
        exact ⟨c, hc, Or.inl ⟨hS, hwaits⟩⟩
      · rw [hfirst c hc hS] at hwaits
        exact ⟨c, hc, Or.inr (Or.inl ⟨hS, (List.mem_append.mp hT).resolve_left hS, hwaits⟩)⟩
    · have hopen := sightView_unseen hp hc hT
      have hquiet : (projection config env run.graph (sightView db₀ outcome (S ++ B) c.2)
          (f c.1)).waits = false := by
        rcases @projection_open config env run.graph _ hopen (f c.1) with h | h
        · rw [h]
          rfl
        · rw [h]
      rw [hquiet, Bool.false_or, sightView_asks hp hc hT] at hwaits
      exact ⟨c, hc, Or.inr (Or.inr ⟨hT, hwaits⟩)⟩
  · rintro ⟨c, hc, ⟨hS, hwaits⟩ | ⟨hS, hB, hwaits⟩ | ⟨hT, hasks⟩⟩
    · have hactive : nodeActive (f c.1).status = true := by
        rcases hf.seen c hc hS with ⟨_, hlate⟩ | ⟨hstatus, _⟩
        · rw [waitsAlways, hlate] at hwaits
          cases hwaits
        · rw [hstatus]
          rfl
      refine ⟨(f c.1, c.2), mem_asked.mpr ⟨c, hc, hactive, rfl⟩, ?_⟩
      rw [sightView_seen (List.mem_append_left B hS), hlook c hc hS hactive, Bool.or_eq_true]
      exact Or.inl hwaits
    · refine ⟨(f c.1, c.2), asked_unseen hp hf hc hS, ?_⟩
      rw [sightView_seen (List.mem_append_right S hB), hfirst c hc hS, hwaits, Bool.true_or]
    · refine ⟨(f c.1, c.2), asked_unseen hp hf hc fun hS => hT (List.mem_append_left B hS), ?_⟩
      rw [sightView_asks hp hc hT, hasks, Bool.or_true]

include hp hf in
/-- A call that waits for nobody finds nothing under way when all agent runs have ended. -/
theorem settled_asked
    (hwaits : (flags config env db₀ run children outcome S B f).awaitingHuman = false) :
    (!(asked children f).isEmpty && (asked children f).all fun c =>
      !(sightView db₀ outcome (S ++ B) c.2).status.isUnderWay) = true ↔
    asked children f ≠ [] ∧ ∀ c ∈ children, c.2 ∈ S ++ B := by
  rw [Bool.and_eq_true, Bool.not_eq_true', List.isEmpty_eq_false_iff, List.all_eq_true]
  refine and_congr_right fun _ => ⟨fun h c hc => ?_, fun h d hd => ?_⟩
  · by_contra hT
    have hmoving := h _ (asked_unseen hp hf hc fun hS => hT (List.mem_append_left B hS))
    have hopen := sightView_unseen hp hc hT
    have hasks : asksFirst db₀ c = false := by
      rw [Bool.eq_false_iff] at hwaits ⊢
      exact fun hasks => hwaits ((flags_awaitingHuman hp hf).mpr ⟨c, hc, Or.inr (Or.inr ⟨hT, hasks⟩)⟩)
    rw [← sightView_asks hp hc hT] at hasks
    dsimp only at hmoving
    generalize (sightView db₀ outcome (S ++ B) c.2).status = status at hmoving hopen hasks
    cases status <;>
      simp [AgentRunStatus.isTerminal, AgentRunStatus.isUnderWay, AgentRunStatus.asks]
        at hmoving hopen hasks
  · obtain ⟨c, hc, _, rfl⟩ := mem_asked.mp hd
    dsimp only
    rw [sightView_seen (h c hc)]
    have hends := hp.ends c hc
    generalize (outcome c.2).status = status at hends
    cases status <;> first | rfl | cases hends

end Flags

section Call
variable {config : Config} {env : Surroundings} {passes : ℕ} {db₀ db : Db} {run : RunRow}
  {orchestration : ℕ} {children : List (NodeExecutionRow × ℕ)} {outcome : ℕ → AgentRunState}
  {S B : List ℕ} {f : NodeExecutionRow → NodeExecutionRow} {status : WorkflowRunStatus}

/-- The database when a call has seen a batch and not yet concluded. -/
def called (config : Config) (env : Surroundings) (db₀ : Db) (run : RunRow)
    (children : List (NodeExecutionRow × ℕ)) (outcome : ℕ → AgentRunState) (S B : List ℕ)
    (f : NodeExecutionRow → NodeExecutionRow) (db : Db) : Db :=
  (db.reach outcome B).projectAll config env run.id run.graph (sightView db₀ outcome (S ++ B))
    (asked children f)

variable (hp : Beside db₀ run orchestration children outcome)
  (hseen : Seen config env db₀ run children outcome S f db) (hstands : StandsAt run status db)
  (hsub : ∀ a ∈ S ++ B, ∃ c ∈ children, c.2 = a)
  (hopen : reconcilable (db₀.queuePhase? run.id) status = true)

include hseen in
theorem reach_seen :
    (db.reach outcome B).orchestration = (db₀.reach outcome (S ++ B)).orchestration := by
  rw [← reach_append]
  simp only [Db.reach, hseen.orchestration]

include hp hseen hstands hsub hopen in
theorem observeBatch_called : observeBatch config env passes run.id outcome db B =
    ((conclusion config passes run.id run
      ((flags config env db₀ run children outcome S B f).conclude
        (!(asked children f).isEmpty && (asked children f).all fun c =>
          !(sightView db₀ outcome (S ++ B) c.2).status.isUnderWay))).play (Stmt.observe config env)
      (called config env db₀ run children outcome S B f db)).map Prod.snd := by
  obtain ⟨r, hr, hgraph, hinput, hcanonical, rfl⟩ := hstands
  have hphase : (db.reach outcome B).queuePhase? run.id = db₀.queuePhase? run.id := by
    rw [Db.queuePhase?, Db.queue?, Db.queuePhase?, Db.queue?, ← hseen.queue]
    rfl
  have hlinked : (db.reach outcome B).linkedExecutions run.id orchestration = asked children f :=
    linkedExecutions_seen hp hsub hseen.sighted hseen.rows (reach_seen hseen)
  have hviews : Views r.graph (sightView db₀ outcome (S ++ B)) (db.reach outcome B)
      (asked children f) := by
    rw [hgraph]
    exact hseen.sighted.views hp (reach_seen hseen)
  have hrun : (db.reach outcome B).run? run.id = some r := hr
  have hplay : (reconcileWorkflowRun config passes run.id).play (Stmt.observe config env)
      (db.reach outcome B) = _ :=
    play_reconcileWorkflowRun hrun (hphase ▸ hopen) (hcanonical.trans hp.canonical) hlinked hviews
  have hconclusion : ∀ o, conclusion config passes run.id r o =
      conclusion config passes run.id run o := by
    intro o
    rw [conclusion, conclusion, hgraph, hinput]
  rw [observeBatch, hplay, hconclusion, hgraph]
  rfl

include hp hseen hsub in
/-- The rows when a call has seen a batch; unless its router waits, a seen execution has ended. -/
theorem called_seen : ∃ f', Seen config env db₀ run children outcome (S ++ B) f'
      (called config env db₀ run children outcome S B f db) ∧
    ∀ c ∈ children, c.2 ∈ S ++ B →
      (nodeActive (f c.1).status = true →
        (projection config env run.graph (outcome c.2) (f c.1)).waits = false) →
      nodeTerminal (f' c.1).status = true := by
  have hf := hseen.sighted
  have hrows : (db.reach outcome B).nodeExecutions = db₀.nodeExecutions.map f := hseen.rows
  have hkeys : (db.reach outcome B).ExecutionKeys := hp.keys.of_map hrows hf.same hseen.nextId
  have hasked : ∀ d ∈ asked children f, d.1 ∈ (db.reach outcome B).nodeExecutions ∧
      d.1.runId = run.id ∧ nodeActive d.1.status = true := by
    intro d hd
    obtain ⟨c, hc, hactive, rfl⟩ := mem_asked.mp hd
    obtain ⟨hmem, hown⟩ := Db.mem_ownExecutions.mp (hp.own hc)
    refine ⟨?_, (hf.same c.1 hmem).runId.trans hown, hactive⟩
    rw [hrows]
    exact List.mem_map_of_mem hmem
  have honce : ((asked children f).map (·.1.id)).Nodup := by
    have hids : (asked children f).map (·.1.id) =
        (children.filter fun c => nodeActive (f c.1).status).map (·.1.id) := by
      rw [asked, List.map_map]
      refine List.map_congr_left fun c hc => ?_
      exact (hf.same c.1 (Db.mem_ownExecutions.mp (hp.own (List.mem_of_mem_filter hc))).1).id
    rw [hids]
    exact hp.once.sublist (List.filter_sublist.map _)
  obtain ⟨g, hg, hwritten, hskips⟩ := @Db.projectAll_rows config env run.graph
    (sightView db₀ outcome (S ++ B)) run.id _ _ hkeys hasked honce
  have hskips' : ∀ n ∈ db₀.nodeExecutions, (∀ d ∈ asked children f, d.1 ≠ f n) →
      Skips (f n) (g (f n)) := by
    intro n hn hnot
    refine hskips (f n) ?_ hnot
    rw [hrows]
    exact List.mem_map_of_mem hn
  have hframe := @projectAll_frame config env run.graph
    (sightView db₀ outcome (S ++ B)) (db.reach outcome B) run.id (asked children f)
  have hobserved := hf.observe hp hsub hwritten hskips'
  refine ⟨g ∘ f, ⟨hobserved, ?_, ?_, ?_, ?_⟩, fun c hc hT hquiet => ?_⟩
  · rw [called, hg, hrows, List.map_map]
  · rw [called, hframe]
    exact reach_seen hseen
  · rw [called, hframe]
    exact hseen.queue
  · rw [called, hframe]
    exact hseen.nextId
  · rcases hobserved.seen c hc hT with ⟨hterminal, _⟩ | ⟨hwaits, _⟩
    · exact hterminal
    · -- A row that waits was asked about, and its router made the call wait.
      exfalso
      have hmem := (Db.mem_ownExecutions.mp (hp.own hc)).1
      cases hactive : nodeActive (f c.1).status with
      | true =>
        have hd : (f c.1, c.2) ∈ asked children f := mem_asked.mpr ⟨c, hc, hactive, rfl⟩
        have hroutes : Routes run.graph (f c.1) :=
          (hf.views hp (reach_seen (B := B) hseen)).routes _ hd
        have hended := written_ended hroutes (hp.ends c hc) (hquiet hactive)
        rw [Function.comp_apply, hwritten (f c.1, c.2) hd, sightView_seen hT] at hwaits
        rw [hwaits] at hended
        cases hended
      | false =>
        have hskip := hf.skips hp hskips' hmem fun d _ _ => hactive
        have hinactive := hskip.inactive hactive
        rw [Function.comp_apply] at hwaits
        rw [hwaits] at hinactive
        cases hinactive

/-- A call that waits for nobody has seen no router wait. -/
theorem flags_quiet {c : NodeExecutionRow × ℕ} (hc : c ∈ children) (hT : c.2 ∈ S ++ B)
    (hwaits : (flags config env db₀ run children outcome S B f).awaitingHuman = false)
    (hactive : nodeActive (f c.1).status = true) :
    (projection config env run.graph (outcome c.2) (f c.1)).waits = false := by
  have hnot := List.any_eq_false.mp hwaits _ (mem_asked.mpr ⟨c, hc, hactive, rfl⟩)
  rw [Bool.not_eq_true, Bool.or_eq_false_iff, sightView_seen hT] at hnot
  exact hnot.1

theorem Seen.settle (hseen : Seen config env db₀ run children outcome S f db)
    (hp : Beside db₀ run orchestration children outcome)
    {g : NodeExecutionRow → NodeExecutionRow} (hg : ∀ n, Settles (db₀.reach outcome S) n (g n))
    {db' : Db} (hrows : db'.nodeExecutions = db.nodeExecutions.map g)
    (horchestration : db'.orchestration = db.orchestration) (hqueue : db'.queue = db.queue)
    (hnext : db'.nextId = db.nextId) :
    Seen config env db₀ run children outcome S (g ∘ f) db' :=
  ⟨hseen.sighted.settle hp hg, by rw [hrows, hseen.rows, List.map_map],
    horchestration.trans hseen.orchestration, hqueue.trans hseen.queue, hnext.trans hseen.nextId⟩

include hstands in
theorem called_stands : ∃ status', StandsAt run status'
      (called config env db₀ run children outcome S B f db) ∧
    (status' = status ∨ (flags config env db₀ run children outcome S B f).awaitingHuman = true ∧
      status' = status.next .awaitingHuman) :=
  have hreached : StandsAt run status (db.reach outcome B) := hstands.of_runs rfl
  StandsAt.projectAll hreached _

/-- Skipping the pending rows of a run. -/
theorem skipPending_rows (db db' : Db) (runId : ℕ) :
    ∃ g, ((db.pendingExecutions runId).foldl (fun db n => db.skipPendingExecution n.id) db) =
        { db with nodeExecutions := db.nodeExecutions.map g } ∧ ∀ n, Settles db' n (g n) := by
  generalize db.pendingExecutions runId = rows
  induction rows generalizing db with
  | nil => exact ⟨id, by simp, fun n => Or.inl rfl⟩
  | cons row rest ih =>
    obtain ⟨g, hg, hsettles⟩ := ih (db.skipPendingExecution row.id)
    refine ⟨g ∘ fun n => if n.id == row.id && decide (n.status = .pending) then
      { n with status := .skipped } else n, ?_, fun n => ?_⟩
    · rw [List.foldl_cons, hg, ← List.map_map]
      rfl
    · rw [Function.comp_apply]
      split_ifs with hrow
      · have hpending : n.status = .pending := by
          simp only [Bool.and_eq_true, decide_eq_true_eq] at hrow
          exact hrow.2
        have hself : SameRow n { n with status := .skipped } := ⟨rfl, rfl, rfl, rfl, rfl, rfl⟩
        rcases hsettles { n with status := .skipped } with heq | ⟨hsame, hinactive, _⟩
        · rw [heq]
          exact Or.inr ⟨hself, rfl, Or.inl hpending⟩
        · exact Or.inr ⟨hself.trans hsame, hinactive, Or.inl hpending⟩
      · exact hsettles n

include hp hseen hstands hsub hopen in
/-- A call that sees a failure fails the run. -/
theorem call_failed (h : (flags config env db₀ run children outcome S B f).failed = true) :
    ∃ f' db', observeBatch config env passes run.id outcome db B = some db' ∧
      Seen config env db₀ run children outcome (S ++ B) f' db' ∧
      StandsAt run (status.next .failed) db' := by
  obtain ⟨f', hcalled, _⟩ := called_seen hp hseen hsub
  obtain ⟨status', hstands', hstatus⟩ := @called_stands config env db₀ db run children outcome S B f
    status hstands
  obtain ⟨g, hg, hsettles⟩ := skipPending_rows
    (called config env db₀ run children outcome S B f db) (db₀.reach outcome (S ++ B)) run.id
  refine ⟨g ∘ f', ({ called config env db₀ run children outcome S B f db with
    nodeExecutions := (called config env db₀ run children outcome S B f db).nodeExecutions.map
      g } : Db).updateRunStatus run.id .failed none (some "Workflow agent execution failed"),
    ?_, hcalled.settle hp hsettles rfl rfl rfl rfl, ?_⟩
  · rw [observeBatch_called hp hseen hstands hsub hopen, conclusion_failed _ h,
      Prog.play_bind play_markPendingNodesSkipped, hg]
    rfl
  · have hnext : status'.next .failed = status.next .failed := by
      rcases hstatus with rfl | ⟨_, rfl⟩
      · rfl
      · cases status <;> rfl
    rw [← hnext]
    exact StandsAt.updateRunStatus (hstands'.of_runs rfl) _ _ _

include hp hseen hstands hsub hopen in
theorem observe_waits (hfailed : (flags config env db₀ run children outcome S B f).failed = false)
    (h : (flags config env db₀ run children outcome S B f).awaitingHuman = true) :
    observeBatch config env passes run.id outcome db B =
      some ((called config env db₀ run children outcome S B f db).updateRunStatus run.id
        .awaitingHuman none none) := by
  rw [observeBatch_called hp hseen hstands hsub hopen, conclusion_waits _ hfailed h]
  rfl

include hp hseen hstands hsub hopen in
/-- A call without failures waits for its routers and for what is asked. -/
theorem call_waits (hfailed : (flags config env db₀ run children outcome S B f).failed = false)
    (h : (flags config env db₀ run children outcome S B f).awaitingHuman = true) :
    ∃ f' db', observeBatch config env passes run.id outcome db B = some db' ∧
      Seen config env db₀ run children outcome (S ++ B) f' db' ∧
      StandsAt run (status.next .awaitingHuman) db' := by
  obtain ⟨f', hcalled, _⟩ := called_seen hp hseen hsub
  obtain ⟨status', hstands', hstatus⟩ := @called_stands config env db₀ db run children outcome S B f
    status hstands
  refine ⟨f', (called config env db₀ run children outcome S B f db).updateRunStatus run.id
    .awaitingHuman none none, observe_waits hp hseen hstands hsub hopen hfailed h,
    ⟨hcalled.sighted, hcalled.rows, hcalled.orchestration, hcalled.queue, hcalled.nextId⟩, ?_⟩
  · have hnext : status'.next .awaitingHuman = status.next .awaitingHuman := by
      rcases hstatus with rfl | ⟨_, rfl⟩
      · rfl
      · cases status <;> rfl
    rw [← hnext]
    exact hstands'.updateRunStatus _ _ _

include hstands in
/-- Unless somebody waits, the observations leave the run alone. -/
theorem called_quiet (h : (flags config env db₀ run children outcome S B f).awaitingHuman = false) :
    StandsAt run status (called config env db₀ run children outcome S B f db) := by
  obtain ⟨status', hstands', rfl | ⟨hwaits, _⟩⟩ := @called_stands config env db₀ db run children
    outcome S B f status hstands
  · exact hstands'
  · rw [h] at hwaits
    cases hwaits

include hp hseen hstands hsub hopen in
/-- A call that only sees successes: the run is driven when all its agent runs have ended. -/
theorem call_succeeded (hfailed : (flags config env db₀ run children outcome S B f).failed = false)
    (hwaits : (flags config env db₀ run children outcome S B f).awaitingHuman = false)
    (hcancelled : (flags config env db₀ run children outcome S B f).cancelled = false) :
    ((asked children f ≠ [] ∧ ∀ c ∈ children, c.2 ∈ S ++ B) →
      observeBatch config env passes run.id outcome db B =
        ((driveWorkflowRun config run.id run.graph run.inputText passes).play
          (Stmt.observe config env) ((called config env db₀ run children outcome S B f
            db).updateRunStatus run.id .running none none)).map Prod.snd) ∧
    (¬(asked children f ≠ [] ∧ ∀ c ∈ children, c.2 ∈ S ++ B) →
      observeBatch config env passes run.id outcome db B =
        some (called config env db₀ run children outcome S B f db)) := by
  rw [observeBatch_called hp hseen hstands hsub hopen,
    conclusion_succeeded _ hfailed hwaits hcancelled, ← settled_asked hp hseen.sighted hwaits]
  refine ⟨fun h => ?_, fun h => ?_⟩
  · rw [if_pos h]
    rfl
  · rw [if_neg h]
    rfl

/-- Another execution of the run keeps it from being canceled. -/
def StillOpen (db₀ : Db) (run : RunRow) (children : List (NodeExecutionRow × ℕ))
    (outcome : ℕ → AgentRunState) (T : List ℕ) : Prop :=
  ∃ n ∈ db₀.ownExecutions run.id, (∀ c ∈ children, c.1 ≠ n) ∧ nodeActive n.status = true ∧
    (db₀.reach outcome T).arenaEnded n = false

theorem Seen.any_active (hseen : Seen config env db₀ run children outcome S f db) :
    ((db.ownExecutions run.id).any fun n => nodeActive n.status) = true ↔
      ∃ n ∈ db₀.ownExecutions run.id, nodeActive (f n).status = true := by
  rw [List.any_eq_true]
  constructor
  · rintro ⟨m, hm, hactive⟩
    obtain ⟨hmem, hown⟩ := Db.mem_ownExecutions.mp hm
    rw [hseen.rows, List.mem_map] at hmem
    obtain ⟨n, hn, rfl⟩ := hmem
    exact ⟨n, Db.mem_ownExecutions.mpr ⟨hn, (hseen.sighted.same n hn).runId ▸ hown⟩, hactive⟩
  · rintro ⟨n, hn, hactive⟩
    obtain ⟨hmem, hown⟩ := Db.mem_ownExecutions.mp hn
    refine ⟨f n, Db.mem_ownExecutions.mpr ⟨?_, (hseen.sighted.same n hmem).runId.trans hown⟩,
      hactive⟩
    rw [hseen.rows]
    exact List.mem_map_of_mem hmem

/-- The row of a settled Arena is cancelled. -/
def cancelArena (db : Db) (runId : ℕ) (n : NodeExecutionRow) : NodeExecutionRow :=
  if n.runId == runId && db.arenaEnded n then { n with status := .cancelled } else n

theorem cancelSettledArenas_rows (db : Db) (runId : ℕ) :
    (db.cancelSettledArenas runId).nodeExecutions = db.nodeExecutions.map (cancelArena db runId) := by
  refine List.map_congr_left fun n _ => ?_
  simp only [cancelArena, Db.arenaEnded, Bool.and_assoc]

theorem cancelArena_settles {db db' : Db} (h : db.orchestration = db'.orchestration) (runId : ℕ)
    (n : NodeExecutionRow) : Settles db' n (cancelArena db runId n) := by
  rw [cancelArena]
  split_ifs with hended
  · refine Or.inr ⟨⟨rfl, rfl, rfl, rfl, rfl, rfl⟩, rfl, Or.inr ?_⟩
    rw [Bool.and_eq_true, Db.arenaEnded, h] at hended
    exact hended.2
  · exact Or.inl rfl

theorem setPending_settles (db : Db) (runId : ℕ) (n : NodeExecutionRow) :
    Settles db n (if n.runId == runId && decide (n.status = .pending) then
      { n with status := .cancelled } else n) := by
  split_ifs with hpending
  · rw [Bool.and_eq_true, decide_eq_true_eq] at hpending
    exact Or.inr ⟨⟨rfl, rfl, rfl, rfl, rfl, rfl⟩, rfl, Or.inl hpending.2⟩
  · exact Or.inl rfl

/-- The executions that are active when a call has seen a cancellation. -/
theorem active_cancelled (hp : Beside db₀ run orchestration children outcome) {T : List ℕ}
    (hseen : Seen config env db₀ run children outcome T f db)
    (hended : ∀ c ∈ children, c.2 ∈ T → nodeTerminal (f c.1).status = true) :
    (∃ n ∈ db₀.ownExecutions run.id,
        nodeActive ((cancelArena db run.id ∘ f) n).status = true) ↔
      (∃ c ∈ children, c.2 ∉ T) ∨ StillOpen db₀ run children outcome T := by
  have hsettled := hseen.sighted.settle hp
    fun n => cancelArena_settles hseen.orchestration run.id n
  have harena : ∀ n, db.arenaEnded n = (db₀.reach outcome T).arenaEnded n := by
    intro n
    rw [Db.arenaEnded, hseen.orchestration]
    rfl
  constructor
  · rintro ⟨n, hn, hactive⟩
    by_cases hchild : ∃ c ∈ children, c.1 = n
    · obtain ⟨c, hc, rfl⟩ := hchild
      refine Or.inl ⟨c, hc, fun hT => ?_⟩
      have hterminal := hended c hc hT
      rw [Function.comp_apply, cancelArena] at hactive
      split_ifs at hactive
      · cases hactive
      · cases hs : (f c.1).status <;> simp [hs, nodeTerminal, nodeActive] at hterminal hactive
    · have hnot : ∀ c ∈ children, c.1 ≠ n := fun c hc heq => hchild ⟨c, hc, heq⟩
      have hactive₀ := hsettled.active n hn hactive
      refine Or.inr ⟨n, hn, hnot, hactive₀, Bool.eq_false_iff.mpr fun harenaEnded => ?_⟩
      rcases hseen.sighted.others n hn hnot hactive₀ with hsame | ⟨_, hinactive⟩
      · have hown := (Db.mem_ownExecutions.mp hn).2
        rw [Function.comp_apply, hsame, cancelArena,
          if_pos (by rw [hown, harena n, harenaEnded]; simp)] at hactive
        cases hactive
      · rw [Function.comp_apply, cancelArena] at hactive
        split_ifs at hactive
        · cases hactive
        · rw [hinactive] at hactive
          cases hactive
  · rintro (⟨c, hc, hT⟩ | ⟨n, hn, hnot, hactive, hopen⟩)
    · exact ⟨c.1, hp.own hc, (hsettled.unseen c hc hT).active (hp.active c hc)⟩
    · refine ⟨n, hn, ?_⟩
      rcases hsettled.others n hn hnot hactive with hsame | ⟨harenaEnded, _⟩
      · rw [hsame]
        exact hactive
      · rw [hopen] at harenaEnded
        cases harenaEnded

include hp hseen hstands hsub hopen in
/-- A call that sees cancellations and nothing worse cancels the run, unless an execution of it is
still active. -/
theorem call_cancelled (hfailed : (flags config env db₀ run children outcome S B f).failed = false)
    (hwaits : (flags config env db₀ run children outcome S B f).awaitingHuman = false)
    (h : (flags config env db₀ run children outcome S B f).cancelled = true) :
    ∃ f' db' status', observeBatch config env passes run.id outcome db B = some db' ∧
      Seen config env db₀ run children outcome (S ++ B) f' db' ∧ StandsAt run status' db' ∧
      ((∃ c ∈ children, c.2 ∉ S ++ B) ∨ StillOpen db₀ run children outcome (S ++ B) →
        status' = status) ∧
      (¬((∃ c ∈ children, c.2 ∉ S ++ B) ∨ StillOpen db₀ run children outcome (S ++ B)) →
        status' = status.next .canceled) := by
  obtain ⟨f', hcalled, hended⟩ := called_seen hp hseen hsub
  have hquiet := called_quiet hstands hwaits
  have hplay := @observeBatch_called config env passes db₀ db run orchestration children outcome S B f
    status hp hseen hstands hsub hopen
  rw [conclusion_cancelled _ hfailed hwaits h, play_reconcileCancelling, Option.map_some] at hplay
  generalize called config env db₀ run children outcome S B f db = mid at hcalled hquiet hplay
  have hactive := active_cancelled hp hcalled
    fun c hc hT => hended c hc hT (flags_quiet hc hT hwaits)
  have hcancelled := hcalled.settle hp
    (fun n => cancelArena_settles hcalled.orchestration run.id n)
    (cancelSettledArenas_rows mid run.id) rfl rfl rfl
  rw [← hcancelled.any_active] at hactive
  by_cases hany : ((mid.cancelSettledArenas run.id).ownExecutions run.id).any
      (fun n => nodeActive n.status) = true
  · rw [if_pos hany] at hplay
    exact ⟨_, _, status, hplay, hcancelled, hquiet.of_runs rfl, fun _ => rfl,
      fun hnot => absurd (hactive.mp hany) hnot⟩
  · rw [if_neg hany] at hplay
    refine ⟨_, _, status.next .canceled, hplay, hcancelled.settle hp (setPending_settles _ run.id)
      rfl rfl rfl rfl, StandsAt.updateRunStatus (hquiet.of_runs rfl) _ _ _,
      fun hopen => absurd (hactive.mpr hopen) hany, fun _ => rfl⟩

end Call

end VibeKanban.Runtime
