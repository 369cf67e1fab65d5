import VibeKanban.Runtime.Rounds

/-! The history of a run: passes of the drive loop, and between them the completions that the other
operations report. -/
namespace VibeKanban.Runtime
open Lib Workflow Router

section
variable (config : Config) (runId : ℕ) (graph : WorkflowGraph) (guard : Stmt → Db → Prop)

def Stmt.ExecGuarded (s : Stmt) (x : Db) (a : s.Ans) (y : Db) : Prop :=
  guard s x ∧ s.Exec config.router.json.fromStr x a y

def Db.UnderWay (db : Db) (runId : ℕ) (nodeId : String) (iteration : ℤ) : Prop :=
  ∃ n ∈ db.ownExecutions runId, n.nodeId = nodeId ∧ n.iteration = iteration ∧
    nodeActive n.status = true

/-- What the other operations do to a run between two passes. Reconciliation and a chosen Arena
winner end executions under way (`succeed`), show that they wait (`wait`) and complete routers
(`route`); answers to interactions are claimed (`approve`, `branch`, `winner`); the run is started
(`start`, `link`) and its status follows its executions (`status`). -/
inductive Between : Db → Db → Prop where
  | succeed {x y : Db} {nodeId : String} {iteration : ℤ} (outputText : Option String) :
    x.UnderWay runId nodeId iteration → isCondition graph nodeId = false →
      (Stmt.updateNodeExecution .update runId nodeId iteration
        ⟨.succeeded, outputText, none, none, by decide⟩).ExecGuarded config guard x () y → Between x y
  | wait {x y : Db} {nodeId : String} {iteration : ℤ} (update : NodeExecutionUpdate) :
    x.UnderWay runId nodeId iteration → nodeActive update.status = true →
      (Stmt.updateNodeExecution .update runId nodeId iteration update).ExecGuarded config guard x () y →
        Between x y
  | route {x y : Db} {nodeId : String} {iteration : ℤ} (started : Option String) (raw : String)
    (r : Except String Bool) : x.UnderWay runId nodeId iteration →
      Prog.Exec (Stmt.ExecGuarded config guard)
        (completeConditionRouter config runId graph nodeId iteration started raw) x r y → Between x y
  | approve {x y : Db} {nodeId : String} (expected : Option ℕ) (outputText : String)
    (a : Option (ℕ × ℤ)) : isCondition graph nodeId = false →
      (Stmt.claimInteraction runId nodeId expected .human (.approve outputText)).ExecGuarded config
        guard x a y → Between x y
  | branch {x y : Db} {node : WorkflowNode} {selected : List String} {reason : Option String}
    {overrode : Bool} {route : ManualConditionRoute} (expected : Option ℕ) (a : Option (ℕ × ℤ)) :
      node ∈ graph.nodes →
      buildManualRoute config.router graph node selected reason overrode = .ok route →
      (Stmt.claimInteraction runId node.id expected .human
        (.branch route.outputText route.skippedTargetNodeIds)).ExecGuarded config guard x a y →
          Between x y
  | winner {x y : Db} {nodeId : String} (expected : Option ℕ) (candidateId : ℕ)
    (a : Option (ℕ × ℤ)) :
      (Stmt.claimInteraction runId nodeId expected .arena (.arenaWinner candidateId)).ExecGuarded config
        guard x a y → Between x y
  | status {x y : Db} {next : WorkflowRunStatus} (outputText errorText : Option String) :
    next.isOpen = true →
      (Stmt.updateRunStatus runId next outputText errorText).ExecGuarded config guard x () y →
        Between x y
  | start {x y : Db} (a : Bool) : (Stmt.startRun runId).ExecGuarded config guard x a y → Between x y
  | link {x y : Db} : (Stmt.setOrchestrationRun runId).ExecGuarded config guard x () y → Between x y
  | orchestration {x y : Db} : OrchestrationMoves x y → Between x y

/-- The states of a run between passes. Every pass may end in any way. -/
inductive Reaches (first : Db) : Db → Prop where
  | refl : Reaches first first
  | pass {x y : Db} (inputText : String) (r : Except String Bool) : Reaches first x →
    Prog.Exec (Stmt.ExecGuarded config guard) (driveTurn config runId graph inputText) x r y →
      Reaches first y
  | between {x y : Db} : Reaches first x → Between config runId graph guard x y → Reaches first y

end

theorem exec_of_accept {config : Config} {guard : Stmt → Db → Prop} {accepts : Stmt → Db → Bool}
    (haccepts : ∀ s db, accepts s db = true → guard s db) {α : Type} {p : Program α} {x y : Db}
    {r : Except String α} (h : p.play (Stmt.accept config accepts) x = some (r, y)) :
    Prog.Exec (Stmt.ExecGuarded config guard) p x r y := by
  refine Prog.exec_of_play (fun s db a db' hanswer => ?_) h
  obtain ⟨hguard, hexec⟩ := s.accept_exec hanswer
  exact ⟨haccepts s db hguard, hexec⟩

def Duties.ofBegun (nodeId : String) (iteration : ℤ) : Duties :=
  ⟨fun _ => False, fun id k => id = nodeId ∧ k = iteration, fun _ _ => False, []⟩

namespace Passes
variable {P : Passes} {x y : Db} {nodeId : String} {iteration : ℤ}

section Between

theorem Inv.begun_of_row (h : P.Inv .none x) {n : NodeExecutionRow}
    (hn : n ∈ x.ownExecutions P.runId) (hstarted : n.status ≠ .pending) :
    P.Inv (.ofBegun n.nodeId n.iteration) x := by
  obtain ⟨b, status, hshows, hfits⟩ := h
  refine ⟨b, status, hshows, hfits.framed, hfits.balanced, hfits.status, fun _ => False.elim, ?_,
    fun _ _ _ => False.elim, hfits.supported⟩
  rintro id k ⟨rfl, rfl⟩ e he hnode hiteration
  rw [← hshows.board] at he
  obtain ⟨m, hm, rfl⟩ := Db.mem_board_own.mp he
  rw [hshows.own_unique hm hn hnode hiteration]
  exact hstarted

theorem Inv.begun_of_underWay (h : P.Inv .none x) (hactive : x.UnderWay P.runId nodeId iteration) :
    P.Inv (.ofBegun nodeId iteration) x := by
  obtain ⟨n, hn, rfl, rfl, hact⟩ := hactive
  refine h.begun_of_row hn fun hp => ?_
  rw [hp] at hact
  cases hact

theorem Inv.setRun {d : Duties} (h : P.Inv d x) (hkeyed : (x.setRun P.runId .running none).Keyed) :
    P.Inv d (x.setRun P.runId .running none) := by
  obtain ⟨b, status, hshows, hfits⟩ := h
  refine ⟨b, .running, hshows.setRuns hkeyed (fun _ => rfl) fun r _ hid _ => ?_,
    hfits.withStatus (Or.inl rfl)⟩
  rw [if_pos (by simpa using hid)]

theorem Inv.skipTargets {d : Duties} {targets : List String}
    (h : P.Inv { d with left := targets } x) (hstart : ∀ t ∈ targets, t ≠ P.start)
    (hcondition : ∃ node ∈ P.graph.nodes, node.kind = .condition) :
    P.Inv { d with left := [] }
      (targets.foldl (fun db target => db.skipTarget P.runId target) x) := by
  induction targets generalizing x with
  | nil => exact h
  | cons target rest ih =>
    rw [List.foldl_cons]
    refine ih (h.skipTarget (hstart target List.mem_cons_self) hcondition) fun t ht => ?_
    exact hstart t (List.mem_cons_of_mem _ ht)

variable {fromStr : String → Option Json} {expected : Option ℕ} {a : Option (ℕ × ℤ)}

/-- A claim records its answer and applies it to an own execution that waits. -/
theorem claimInteraction_cases {awaited : Awaited} {response : InteractionResponse}
    (h : P.Inv .none x) (hexec : (Stmt.claimInteraction P.runId nodeId expected awaited
      response).Exec fromStr x a y) : y = x ∨ ∃ n ∈ x.ownExecutions P.runId,
        x.claimCandidate P.runId nodeId expected awaited = some n ∧ n.nodeId = nodeId ∧
        nodeTerminal n.status = false ∧ P.Inv (.ofBegun n.nodeId n.iteration)
          (x.recordResponse n.id response) ∧
        y = (x.recordResponse n.id response).applyResponse P.runId n.id response ∧ y.Keyed := by
  have hkeyed : y.Keyed := by
    obtain ⟨b, status, hshows, _⟩ := h
    exact (hexec.sound hshows.keyed).1
  have hrun : (x.claimInteraction P.runId nodeId expected awaited response).2 = y := run_snd hexec
  unfold Db.claimInteraction at hrun
  cases hcandidate : x.claimCandidate P.runId nodeId expected awaited with
  | none =>
    rw [hcandidate] at hrun
    exact Or.inl hrun.symm
  | some n =>
    simp only [hcandidate] at hrun
    split_ifs at hrun
    · exact Or.inl hrun.symm
    · obtain ⟨hn, hrunId, hnode, hstatus, _⟩ := Db.claimCandidate_some hcandidate
      have hown := Db.mem_ownExecutions.mpr ⟨hn, hrunId⟩
      have hopen : nodeTerminal n.status = false ∧ n.status ≠ .pending := by
        rw [hstatus]
        cases awaited <;> exact ⟨rfl, nofun⟩
      obtain ⟨b, status, hshows, hfits⟩ := h.begun_of_row hown hopen.2
      have hrecord : (x.recordResponse n.id response).Shows P.runId b status :=
        hshows.of_tables ⟨⟨hshows.keyed.ids, hshows.keyed.fresh, hshows.keyed.keys⟩,
          hshows.keyed.runIds⟩ rfl rfl rfl rfl rfl
      exact Or.inr ⟨n, hown, rfl, hnode, hopen.1, ⟨b, status, hrecord, hfits⟩, hrun.symm, hkeyed⟩

theorem Inv.approve {outputText : String} (h : P.Inv .none x)
    (hexec : (Stmt.claimInteraction P.runId nodeId expected .human (.approve outputText)).Exec fromStr
      x a y) (hcond : isCondition P.graph nodeId = false) : P.Inv .none y := by
  rcases claimInteraction_cases h hexec with rfl | ⟨n, hn, _, rfl, hopen, hrecord, rfl, hkeyed⟩
  · exact h
  · refine Inv.setRun ?_ hkeyed
    obtain ⟨b, status, hshows, hfits⟩ := hrecord
    refine Inv.toNone (d := (Duties.ofBegun n.nodeId n.iteration).release n.nodeId n.iteration)
      ⟨_, status, hshows.setNode hn hopen .succeeded (some outputText) none, ?_⟩ rfl
    exact hfits.put_succeeded P.accepted ⟨fun _ => rfl, fun _ => rfl, fun _ => rfl⟩ ⟨rfl, rfl⟩ hcond

theorem Inv.branch {node : WorkflowNode} {outputText : String} {selected skipped : List String}
    (h : P.Inv .none x) (hnode : node ∈ P.graph.nodes) (hkind : node.kind = .condition)
    (hagrees : RouteAgrees P.config.router P.graph node outputText selected skipped)
    (hexec : (Stmt.claimInteraction P.runId node.id expected .human (.branch outputText
      skipped)).Exec fromStr x a y)
    (hguard : P.guard (.claimInteraction P.runId node.id expected .human (.branch outputText
      skipped)) x) : P.Inv .none y := by
  rcases claimInteraction_cases h hexec with
    rfl | ⟨n, hn, hcandidate, hid, hopen, hrecord, rfl, hkeyed⟩
  · exact h
  · obtain ⟨hleft, hstart⟩ := skipped_of_agrees hagrees
    refine Inv.setRun ?_ hkeyed
    obtain ⟨b, status, hshows, hfits⟩ := hrecord
    have hset := hshows.setNode hn hopen .succeeded (some outputText) none
    have hdecided : P.Inv { (Duties.ofBegun n.nodeId n.iteration).release n.nodeId n.iteration with
        left := skipped } ((x.recordResponse n.id (.branch outputText skipped)).setNode n.id .succeeded
          (some outputText) none) := by
      have hf : Writes .succeeded fun e : NodeExecutionSnapshot =>
          { e with status := .succeeded, outputText := some outputText, errorText := none } :=
        ⟨fun _ => rfl, fun _ => rfl, fun _ => rfl⟩
      refine ⟨_, status, hset, hfits.succeed hf ⟨rfl, rfl⟩ fun hc e he hp => ?_⟩
      have hkept := P.decides hc _ _ hguard n hcandidate
      rw [show ((x.setNode n.id .succeeded (some outputText) none).board P.runId) = _ from hset.board]
        at hkept
      exact (hkept e he hp).imp_left fun hout => hleft e.nodeId hout.1 hout.2
    exact (hdecided.skipTargets hstart ⟨node, hnode, hkind⟩).toNone rfl

theorem Inv.startRun {fromStr : String → Option Json} {a : Bool} (h : P.Inv .none x)
    (hexec : (Stmt.startRun P.runId).Exec fromStr x a y) : P.Inv .none y := by
  obtain ⟨b, status, hshows, hfits⟩ := h
  have hkeyed := (hexec.sound hshows.keyed).1
  rw [← run_snd hexec] at hkeyed ⊢
  by_cases hstarts : status = .pending ∧ (x.slots.any fun s => s.runId == P.runId) = true
  · refine ⟨b, .running, hshows.setRuns hkeyed (fun _ => rfl) fun r _ hid hs => ?_,
      hfits.withStatus (Or.inl rfl)⟩
    rw [if_pos (by simpa [hid, hs, hstarts.1] using hstarts.2)]
  · refine ⟨b, status, hshows.setRuns hkeyed (fun _ => rfl) fun r _ _ hs => ?_, hfits⟩
    rw [if_neg, hs]
    intro hp
    simp only [Bool.and_eq_true, decide_eq_true_eq] at hp
    exact hstarts ⟨hs.symm.trans hp.1.2, hp.2⟩

theorem buildManualRoute_condition {codec : RouterCodec} {graph : WorkflowGraph}
    {node : WorkflowNode} {selected : List String} {reason : Option String} {overrode : Bool}
    {route : ManualConditionRoute}
    (h : buildManualRoute codec graph node selected reason overrode = .ok route) :
    node.kind = .condition := by
  obtain ⟨selection, hselection, _⟩ := except_bind_ok h
  unfold validateTargetSelection at hselection
  by_contra hkind
  rw [if_pos hkind] at hselection
  cases hselection

/-- What happens between passes keeps the invariant. -/
theorem Inv.between (h : P.Inv .none x)
    (hstep : Between P.config P.runId P.graph P.guard x y) : P.Inv .none y := by
  cases hstep with
  | succeed outputText hactive hcond hexec =>
    exact ((h.begun_of_underWay hactive).succeed hexec.2 rfl ⟨rfl, rfl⟩ hcond).toNone rfl
  | wait update hactive hstatus hexec =>
    exact ((h.begun_of_underWay hactive).updateActive hexec.2 hstatus (Or.inr ⟨rfl, rfl⟩)).toNone rfl
  | route started raw r hactive hexec =>
    have hpost := Prog.wp_exec (holds_completeConditionRouter (h.begun_of_underWay hactive)
      ⟨rfl, rfl⟩) hexec
    match r with
    | .ok false => exact hpost.toNone rfl
    | .ok true => exact hpost.toNone rfl
    | .error _ => exact hpost.toNone rfl
  | approve expected outputText a hcond hexec => exact h.approve hexec.2 hcond
  | branch expected a hnode hroute hexec =>
    exact h.branch hnode (buildManualRoute_condition hroute) (buildManualRoute_agrees hroute) hexec.2
      hexec.1
  | winner expected candidateId a hexec =>
    rcases claimInteraction_cases h hexec.2 with rfl | ⟨n, _, _, _, _, hrecord, rfl, _⟩
    · exact h
    · exact hrecord.toNone rfl
  | status outputText errorText hopen hexec =>
    refine h.runStatus hexec.2 ?_
    rename_i next
    cases next <;> first | rfl | cases hopen
  | start a hexec => exact h.startRun hexec.2
  | link hexec =>
    obtain ⟨b, status, hshows, hfits⟩ := h
    have hkeyed := (hexec.2.sound hshows.keyed).1
    rw [← run_snd hexec.2] at hkeyed ⊢
    refine ⟨b, status, hshows.setRuns hkeyed (fun _ => rfl) fun r _ _ hs => ?_, hfits⟩
    split_ifs
    · exact hs
    · exact hs
  | orchestration hmove =>
    obtain ⟨b, status, hshows, hfits⟩ := h
    exact ⟨b, status, hshows.orchestration hmove, hfits⟩

/-- Every state of a history fits. -/
theorem Inv.reaches (h : P.Inv .none x)
    (hreach : Reaches P.config P.runId P.graph P.guard x y) : P.Inv .none y := by
  induction hreach with
  | refl => exact h
  | pass inputText r _ hexec ih =>
    have hpost := Prog.wp_exec (holds_driveTurn ih) hexec
    match r with
    | .ok false => exact hpost.1
    | .ok true => exact hpost
    | .error _ => exact hpost
  | between _ hstep ih => exact ih.between hstep

end Between

end Passes

end VibeKanban.Runtime
