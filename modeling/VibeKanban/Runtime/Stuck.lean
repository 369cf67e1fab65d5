import VibeKanban.Runtime.Accounting

/-! A run that is left running has an execution under way, unless a decision cut pending executions
off or an execution was begun that was no longer pending. -/
namespace VibeKanban.Runtime
open Lib Workflow Router

/-- No execution fails, only pending executions begin, and no decision of a Condition cuts a pending
execution off. -/
def careful (config : Config) (runId : ℕ) (graph : WorkflowGraph) (start : String) (s : Stmt)
    (db : Db) : Prop :=
  s.succeeds = true ∧ marksPending s db = true ∧
    keepsReach config.router.json.fromStr runId graph start s db

/-- When the drive loop returns and leaves its run running, an execution of the run is under way. -/
theorem driveWorkflowRun_underWay {config : Config} {runId passes : ℕ} {graph : WorkflowGraph}
    {validated : ValidatedGraph} {text : String} {first x y : Db}
    (hvalid : validateGraphForRun graph = .ok validated)
    (hplanned : first.Planned config.router.json.fromStr graph validated.startNodeId runId)
    (hreach : Reaches config runId graph (careful config runId graph validated.startNodeId) first x)
    (hexec : Prog.Exec
      (Stmt.ExecGuarded config (careful config runId graph validated.startNodeId))
      (driveWorkflowRun config runId graph text passes) x (.ok ()) y)
    (hrunning : y.runStatus? runId = some .running) :
    ∃ n ∈ y.ownExecutions runId, nodeActive n.status = true := by
  have hg := validateGraphForRun_accepted hvalid
  let P : Passes := ⟨config, runId, graph, validated.startNodeId,
    careful config runId graph validated.startNodeId, True, hg, fun _ _ h => h.1,
    fun _ _ _ h => h.2.1, fun _ _ _ h => h.2.2⟩
  have hinv : P.Inv .none x := Passes.Inv.reaches (P := P) hplanned.inv hreach
  have hreturned := Prog.wp_exec (Passes.holds_driveWorkflowRun text passes hinv) hexec
  exact hreturned.2 trivial hrunning

section Fixture

/-- A Condition between the End and a branch of two nodes. -/
def detourCondition : WorkflowNode := ⟨"condition", .condition, none,
  some [⟨some "end", some "done"⟩, ⟨some "detour", some "more"⟩]⟩

def detourGraph : WorkflowGraph where
  version := 2
  nodes := [⟨"start", .start, none, none⟩, detourCondition, ⟨"detour", .agent, none, none⟩,
    ⟨"behind", .transform, none, none⟩, ⟨"end", .end, none, none⟩]
  edges := [⟨"0", "start", "condition"⟩, ⟨"1", "condition", "end"⟩, ⟨"2", "condition", "detour"⟩,
    ⟨"3", "detour", "behind"⟩, ⟨"4", "behind", "end"⟩]
  routerExecutorConfig := some (.obj [("executor", .str "CODEX")])

def detourDb : Db := { Db.empty with
  runs := [⟨1, none, 0, detourGraph, "input", .running, none, none, none⟩]
  nodeExecutions := [⟨0, 1, "start", .start, 0, .pending, none, none, none⟩,
    ⟨1, 1, "condition", .condition, 0, .pending, none, none, none⟩,
    ⟨2, 1, "detour", .agent, 0, .pending, none, none, none⟩,
    ⟨3, 1, "behind", .transform, 0, .pending, none, none, none⟩,
    ⟨4, 1, "end", .end, 0, .pending, none, none, none⟩]
  nextId := 5 }

theorem detourDb_fresh : detourDb.Fresh detourGraph 1 := by
  have hinit : Db.empty.initializeRun 1 none 0 detourGraph "input" none .queued none =
      .ok detourDb := rfl
  refine initializeRun_fresh ⟨⟨by decide, by decide, by decide⟩, by decide⟩ ⟨?_, ?_, ?_⟩ rfl ?_ hinit
  all_goals exact fun _ h => (List.not_mem_nil h).elim

theorem detourGraph_valid : validateGraphForRun detourGraph = .ok ⟨2, "start", ["end"]⟩ := rfl

def detourChoice : Bool → List String × List String
  | true => (["detour"], ["end"])
  | false => (["end"], ["detour"])

def detourPayload (detour : Bool) : Json :=
  routerOutputPayload "user" "selected" none "" (detourChoice detour).1 (detourChoice detour).2
    "manual_route" none none false

def detourTargets : Bool → String
  | true => "\"selected_target_node_ids\":[\"detour\"],\"skipped_target_node_ids\":[\"end\"],"
  | false => "\"selected_target_node_ids\":[\"end\"],\"skipped_target_node_ids\":[\"detour\"],"

def detourText (detour : Bool) : String :=
  "\x7b\"type\":\"condition_router_decision\",\"source\":\"user\",\"status\":\"selected\"," ++
    "\"schema_version\":1,\"decision\":null,\"raw_output\":\"\"," ++ detourTargets detour ++
    "\"validation\":\x7b\"result\":\"manual_route\"," ++
    "\"reason\":null,\"mutation_warning\":null,\"overrode_router_mutation_warning\":false\x7d\x7d"

theorem detourText_eq (detour : Bool) :
    JsonText.toText (detourPayload detour) = detourText detour := by
  have hchars : JsonText.print (detourPayload detour) = (detourText detour).toList := by
    unfold detourText
    simp only [String.toList_append]
    cases detour with
    | true =>
      unfold detourTargets
      repeat rw [String.toList_ofList]
      decide +kernel
    | false =>
      unfold detourTargets
      repeat rw [String.toList_ofList]
      decide +kernel
  rw [JsonText.toText, hchars, String.ofList_toList]

def detourFromStr (detour : Bool) (text : String) : Option Json :=
  if text = detourText detour then some (detourPayload detour) else JsonText.fromText text

theorem detourFromStr_eq (detour : Bool) : detourFromStr detour = JsonText.fromText := by
  funext text
  unfold detourFromStr
  split_ifs with h
  · rw [h, ← detourText_eq]
    exact (JsonText.fromText_toText _ (routerOutputPayload_valid ..)).symm
  · rfl

def detourToText (detour : Bool) (j : Json) : String :=
  if j = detourPayload detour then detourText detour else JsonText.toText j

theorem detourToText_eq (detour : Bool) : detourToText detour = JsonText.toText := by
  funext j
  unfold detourToText
  split_ifs with h
  · rw [h, detourText_eq]
  · rfl

def detourConfig (detour : Bool) : Config := { Config.plain with
  router := { Config.plain.router with
    json := ⟨detourFromStr detour, detourToText detour,
      detourFromStr_eq detour ▸ detourToText_eq detour ▸ JsonText.fromText_toText⟩ } }

theorem detourConfig_eq (detour : Bool) : detourConfig detour = Config.plain := by
  unfold detourConfig Config.plain JsonText.codec
  simp only [detourFromStr_eq, detourToText_eq]

/-- A pass starts the router, the router asks a person, the person chooses a target, and a pass
executes it. -/
structure DetourRun where
  started : Db
  asked : Db
  waiting : Db
  route : ManualConditionRoute
  result : Except String Unit
  left : Db

/-- Successes of pending executions, and no decision. -/
def detourAccepts (s : Stmt) (db : Db) : Bool :=
  s.succeeds && marksPending s db && match s with
    | .updateNodeExecution _ _ nodeId _ update =>
      !(nodeId == "condition" && decide (update.status = .succeeded))
    | .claimInteraction .. => false
    | _ => true

theorem detourAccepts_careful (config : Config) {s : Stmt} {db : Db}
    (h : detourAccepts s db = true) : careful config 1 detourGraph "start" s db := by
  unfold detourAccepts at h
  rw [Bool.and_eq_true, Bool.and_eq_true] at h
  refine ⟨h.1.1, h.1.2, ?_⟩
  cases s with
  | updateNodeExecution origin runId nodeId iteration update =>
    intro hcondition hsucceeded
    have hnode : nodeId = "condition" := by
      obtain ⟨node, hmem, hkind⟩ := List.any_eq_true.mp hcondition
      rw [Bool.and_eq_true, beq_iff_eq, decide_eq_true_eq] at hkind
      obtain ⟨rfl, hkind⟩ := hkind
      simp only [detourGraph, List.mem_cons, List.not_mem_nil, or_false] at hmem
      rcases hmem with rfl | rfl | rfl | rfl | rfl
      · cases hkind
      · rfl
      · cases hkind
      · cases hkind
      · cases hkind
    have hother : (!(nodeId == "condition" && decide (update.status = .succeeded))) = true := h.2
    rw [hnode, hsucceeded] at hother
    cases hother
  | claimInteraction => cases h.2
  | _ => trivial

def detourPlay (config : Config) {α : Type} (p : Program α) (x : Db) :
    Option (Except String α × Db) :=
  p.play (Stmt.accept config detourAccepts) x

def detourRun (config : Config) (detour : Bool) : Option DetourRun := do
  let (_, started) ← detourPlay config (driveTurn config 1 detourGraph "input") detourDb
  let (_, asked) ← detourPlay config (driveTurn config 1 detourGraph "input") started
  let (_, waiting) ← detourPlay config
    (completeConditionRouter config 1 detourGraph "condition" 0 none "") asked
  let route ← (buildManualRoute config.router detourGraph detourCondition (detourChoice detour).1
    none false).toOption
  let decided := (waiting.claimInteraction 1 "condition" none .human
    (.branch route.outputText route.skippedTargetNodeIds)).2
  let (result, left) ← detourPlay config (driveWorkflowRun config 1 detourGraph "input" 2) decided
  return ⟨started, asked, waiting, route, result, left⟩

/-- The router is under way before it asks. -/
def DetourRun.Asked (run : DetourRun) : Prop :=
  run.asked.nodeExecutions.any (fun n => decide (n.runId = 1 ∧ n.nodeId = "condition" ∧
    n.iteration = 0 ∧ n.status = .running)) = true

/-- The board behind the decision, before the target that is left out is skipped. -/
def DetourRun.decided (run : DetourRun) : Board :=
  (run.waiting.setNode 1 .succeeded (some run.route.outputText) none).board 1

/-- The run is reached under any guard that lets the plays and the decision through. -/
theorem detourRun_reached {guard : Stmt → Db → Prop} {detour : Bool} {run : DetourRun}
    (hguard : ∀ s db, detourAccepts s db = true → guard s db)
    (h : detourRun Config.plain detour = some run) (hasked : run.Asked)
    (hdecision : guard (.claimInteraction 1 "condition" none .human
      (.branch run.route.outputText run.route.skippedTargetNodeIds)) run.waiting) :
    ∃ decided : Db, Reaches Config.plain 1 detourGraph guard detourDb decided ∧
      Prog.Exec (Stmt.ExecGuarded Config.plain guard)
        (driveWorkflowRun Config.plain 1 detourGraph "input" 2) decided run.result run.left := by
  have hexec : ∀ {α : Type} {p : Program α} {x y : Db} {r : Except String α},
      detourPlay Config.plain p x = some (r, y) →
        Prog.Exec (Stmt.ExecGuarded Config.plain guard) p x r y := by
    intro α p x y r hplay
    exact exec_of_accept hguard hplay
  unfold detourRun at h
  simp only [Option.bind_eq_bind, Option.bind_eq_some_iff, Prod.exists, Option.pure_def,
    Option.some.injEq] at h
  obtain ⟨r₁, started, h₁, r₂, asked, h₂, r₃, waiting, h₃, route, h₄, result, left, h₅, rfl⟩ := h
  have hactive : asked.UnderWay 1 "condition" 0 := by
    obtain ⟨n, hn, hrow⟩ := List.any_eq_true.mp hasked
    obtain ⟨hrun, hnode, hiteration, hstatus⟩ := of_decide_eq_true hrow
    exact ⟨n, Db.mem_ownExecutions.mpr ⟨hn, hrun⟩, hnode, hiteration, by rw [hstatus]; rfl⟩
  have hroute : buildManualRoute Config.plain.router detourGraph detourCondition
      (detourChoice detour).1 none false = .ok route := by
    cases hbuild : buildManualRoute Config.plain.router detourGraph detourCondition
        (detourChoice detour).1 none false with
    | ok value =>
      rw [hbuild] at h₄
      rw [Option.some.inj h₄]
    | error e =>
      rw [hbuild] at h₄
      cases h₄
  have hwaiting : Reaches Config.plain 1 detourGraph guard detourDb waiting :=
    .between (.pass "input" r₂ (.pass "input" r₁ .refl (hexec h₁)) (hexec h₂))
      (.route none "" r₃ hactive (hexec h₃))
  exact ⟨_, .between hwaiting (.branch none _ (by decide) hroute ⟨hdecision, rfl⟩), hexec h₅⟩

/-- The person chooses the detour: nothing that is pending behind the decision is cut off, and its
agent is left running. -/
theorem detourRun_chosen : ((detourRun Config.plain true).map fun run =>
    (run.asked.nodeExecutions.any (fun n => decide (n.runId = 1 ∧ n.nodeId = "condition" ∧
      n.iteration = 0 ∧ n.status = .running)), run.result.toBool, run.left.runStatus? 1,
      (run.left.ownExecutions 1).map (·.status),
      decide ((run.waiting.claimCandidate 1 "condition" none .human).map (·.id) = some 1 ∧
        (run.decided.own.filter fun e => decide (e.status = .pending)).map (·.nodeId) =
          ["detour", "behind", "end"] ∧
        conditionOutputSelectsTarget Config.plain.router.json.fromStr (some run.route.outputText)
          "end" = false ∧
        0 < run.decided.demand Config.plain.router.json.fromStr detourGraph "detour"))) =
    some (true, true, some .running, [.succeeded, .succeeded, .running, .pending, .skipped],
      true) := by
  rw [← detourConfig_eq true]
  decide +kernel

/-- Everything that is pending is left out by the decision or downstream of its target. -/
theorem detourRun_careful {run : DetourRun}
    (hcandidate : (run.waiting.claimCandidate 1 "condition" none .human).map (·.id) = some 1)
    (hpending : (run.decided.own.filter fun e => decide (e.status = .pending)).map (·.nodeId) =
      ["detour", "behind", "end"])
    (hleft : conditionOutputSelectsTarget Config.plain.router.json.fromStr
      (some run.route.outputText) "end" = false)
    (hdemand : 0 < run.decided.demand Config.plain.router.json.fromStr detourGraph "detour") :
    careful Config.plain 1 detourGraph "start" (.claimInteraction 1 "condition" none .human
      (.branch run.route.outputText run.route.skippedTargetNodeIds)) run.waiting := by
  refine ⟨rfl, rfl, ?_⟩
  intro n hn
  have hid : n.id = 1 := by
    rw [hn] at hcandidate
    exact Option.some.inj hcandidate
  rw [hid]
  have hmem : ∀ id, (∃ e ∈ run.decided.own, e.nodeId = id ∧ e.status = .pending) ↔
      id ∈ ["detour", "behind", "end"] := by
    intro id
    rw [← hpending, List.mem_map]
    simp only [List.mem_filter, decide_eq_true_eq]
    constructor
    · rintro ⟨e, he, hnode, hstatus⟩
      exact ⟨e, ⟨he, hstatus⟩, hnode⟩
    · rintro ⟨e, ⟨he, hstatus⟩, hnode⟩
      exact ⟨e, he, hnode, hstatus⟩
  have hlively : run.decided.Lively Config.plain.router.json.fromStr detourGraph "start" "detour" :=
    .inr (.inl ⟨.inr hdemand, (hmem "detour").mpr (by decide)⟩)
  intro e he hstatus
  have hnode := (hmem e.nodeId).mp ⟨e, he, rfl, hstatus⟩
  simp only [List.mem_cons, List.not_mem_nil, or_false] at hnode
  obtain hnode | hnode | hnode := hnode
  · rw [hnode]
    exact .inr ⟨"detour", hlively, .refl⟩
  · rw [hnode]
    exact .inr ⟨"detour", hlively, .single ⟨⟨"3", "detour", "behind"⟩, by decide, rfl, rfl⟩⟩
  · rw [hnode]
    exact .inl ⟨⟨⟨"1", "condition", "end"⟩, by decide, rfl, rfl⟩, hleft⟩

/-- A person has decided for the detour; its agent is under way when the pass returns. -/
theorem driveWorkflowRun_underWay_detour : ∃ x y : Db,
    Reaches Config.plain 1 detourGraph (careful Config.plain 1 detourGraph "start") detourDb x ∧
      Prog.Exec (Stmt.ExecGuarded Config.plain (careful Config.plain 1 detourGraph "start"))
        (driveWorkflowRun Config.plain 1 detourGraph "input" 2) x (.ok ()) y ∧
      (y.ownExecutions 1).map (·.status) =
        [.succeeded, .succeeded, .running, .pending, .skipped] ∧
      ∃ n ∈ y.ownExecutions 1, nodeActive n.status = true := by
  obtain ⟨run, hrun, hends⟩ := Option.map_eq_some_iff.mp detourRun_chosen
  simp only [Prod.mk.injEq, decide_eq_true_eq] at hends
  obtain ⟨hasked, hresult, hrunning, hstatuses, hcandidate, hpending, hleft, hdemand⟩ := hends
  have hguard (s : Stmt) (db : Db) (h : detourAccepts s db = true) :
      careful Config.plain 1 detourGraph "start" s db :=
    detourAccepts_careful Config.plain h
  obtain ⟨x, hreach, hexec⟩ := detourRun_reached hguard hrun hasked
    (detourRun_careful hcandidate hpending hleft hdemand)
  have hok : run.result = .ok () := by
    cases hr : run.result with
    | ok _ => rfl
    | error e =>
      rw [hr] at hresult
      cases hresult
  rw [hok] at hexec
  have hplanned := detourDb_fresh.planned Config.plain.router.json.fromStr
    (validateGraphForRun_accepted detourGraph_valid)
  exact ⟨x, run.left, hreach, hexec, hstatuses,
    driveWorkflowRun_underWay detourGraph_valid hplanned hreach hexec hrunning⟩

/-- The person chooses the End: the pass returns, the run is still running, and only the node behind
the detour is left. -/
theorem detourRun_ends : ((detourRun Config.plain false).map fun run =>
    (run.asked.nodeExecutions.any (fun n => decide (n.runId = 1 ∧ n.nodeId = "condition" ∧
      n.iteration = 0 ∧ n.status = .running)), run.result.toBool, run.left.runStatus? 1,
      (run.left.ownExecutions 1).map (·.status))) =
    some (true, true, some .running, [.succeeded, .succeeded, .skipped, .pending, .succeeded]) := by
  rw [← detourConfig_eq false]
  decide +kernel

/-- A decision can cut a pending execution off: the run stays running with nothing under way. -/
theorem driveWorkflowRun_stranded : ¬ ∀ (config : Config) (runId passes : ℕ) (graph : WorkflowGraph)
    (validated : ValidatedGraph) (text : String) (first x y : Db),
    validateGraphForRun graph = .ok validated → first.Fresh graph runId →
    Reaches config runId graph allSucceed first x →
    Prog.Exec (Stmt.ExecGuarded config allSucceed) (driveWorkflowRun config runId graph text passes) x
      (.ok ()) y →
    y.runStatus? runId = some .running →
      ∃ n ∈ y.ownExecutions runId, nodeActive n.status = true := by
  intro hclaim
  obtain ⟨run, hrun, hends⟩ := Option.map_eq_some_iff.mp detourRun_ends
  simp only [Prod.mk.injEq] at hends
  obtain ⟨hasked, hresult, hrunning, hstatuses⟩ := hends
  have hguard (s : Stmt) (db : Db) (h : detourAccepts s db = true) : allSucceed s db :=
    (detourAccepts_careful Config.plain h).1
  obtain ⟨decided, hreach, hexec⟩ := detourRun_reached hguard hrun hasked rfl
  have hok : run.result = .ok () := by
    cases hr : run.result with
    | ok _ => rfl
    | error e =>
      rw [hr] at hresult
      cases hresult
  rw [hok] at hexec
  obtain ⟨n, hn, hactive⟩ := hclaim _ _ _ _ _ _ _ _ _ detourGraph_valid detourDb_fresh hreach hexec
    hrunning
  have hstatus : n.status ∈ (run.left.ownExecutions 1).map (·.status) := List.mem_map_of_mem hn
  rw [hstatuses] at hstatus
  simp only [List.mem_cons, List.not_mem_nil, or_false] at hstatus
  rcases hstatus with hs | hs | hs | hs | hs <;> rw [hs] at hactive <;> cases hactive

end Fixture

end VibeKanban.Runtime
