import VibeKanban.Router.Agreement
import VibeKanban.Runtime.Dispatch
import VibeKanban.Runtime.Progress
import VibeKanban.Runtime.View

/-! The passes of the drive loop keep the balance of the board, from the statements up to the
loop. -/
namespace VibeKanban.Runtime
open Lib Workflow Router

/-- No execution fails. -/
def Stmt.succeeds : Stmt → Bool
  | updateNodeExecution _ _ _ _ update => decide (update.status ≠ .failed)
  | _ => true

/-- After a decision, every pending execution belongs to a target that the decision leaves out or
is downstream of a lively node. -/
def Board.Decided (fromStr : String → Option Json) (graph : WorkflowGraph) (start nodeId : String)
    (output : Option String) (b : Board) : Prop :=
  ∀ e ∈ b.own, e.status = .pending →
    graph.Edge nodeId e.nodeId ∧ conditionOutputSelectsTarget fromStr output e.nodeId = false ∨
      b.Reached fromStr graph start e.nodeId

/-- The decision of a Condition, by its router or by a person, cuts no pending execution off. -/
def keepsReach (fromStr : String → Option Json) (runId : ℕ) (graph : WorkflowGraph)
    (start : String) : Stmt → Db → Prop
  | .updateNodeExecution _ id nodeId iteration update, db =>
    isCondition graph nodeId = true → update.status = .succeeded →
      ((db.updateNodeExecution id nodeId iteration update).board runId).Decided fromStr graph start
        nodeId update.outputText
  | .claimInteraction id nodeId expected awaited (.branch output _), db =>
    ∀ n, db.claimCandidate id nodeId expected awaited = some n →
      ((db.setNode n.id .succeeded (some output) none).board runId).Decided fromStr graph start
        nodeId (some output)
  | _, _ => True

/-- Passes over one run under a guard that lets no execution fail; a careful guard lets executions
begin only from pending rows and lets no decision cut pending executions off. -/
structure Passes where
  config : Config
  runId : ℕ
  graph : WorkflowGraph
  start : String
  guard : Stmt → Db → Prop
  careful : Prop
  accepted : graph.Accepted start
  succeeds : ∀ s db, guard s db → s.succeeds = true
  marks : careful → ∀ s db, guard s db → marksPending s db = true
  decides : careful → ∀ s db, guard s db →
    keepsReach config.router.json.fromStr runId graph start s db

namespace Passes
variable (P : Passes)

/-- A statement under the guard. -/
def Exec (s : Stmt) (x : Db) (a : s.Ans) (y : Db) : Prop :=
  P.guard s x ∧ s.Exec P.config.router.json.fromStr x a y

/-- The database shows a board that fits. -/
def Inv (d : Duties) (x : Db) : Prop := ∃ b status, x.Shows P.runId b status ∧
  Fits P.config.router.json.fromStr P.graph P.start P.careful d b status

/-- Every execution of a program passes through fitting states and ends as claimed. -/
abbrev Holds {α : Type} (p : Program α) (Q : Except String α → Db → Prop) (x : Db) : Prop :=
  Prog.wp (fun _ x => ∃ d, P.Inv d x) P.Exec p Q x

variable {P} {α β : Type} {d : Duties} {x y : Db} {nodeId : String} {iteration : ℤ}

section Rules
variable {Q : Except String β → Db → Prop}

theorem holds_bind {p : Program α} {f : α → Program β} {R : Except String α → Db → Prop}
    (hp : P.Holds p R x) (hok : ∀ a y, R (.ok a) y → P.Holds (f a) Q y)
    (herror : ∀ e y, R (.error e) y → Q (.error e) y) : P.Holds (p >>= f) Q x := by
  refine Prog.wp_bind.mpr (Prog.wp_mono (fun r y hr => ?_) hp)
  cases r with
  | ok a => exact hok a y hr
  | error e => exact herror e y hr

theorem holds_exec {s : Stmt} {k : s.Ans → Program β} (h : P.Inv d x)
    (hk : ∀ a y, P.guard s x → s.Exec P.config.router.json.fromStr x a y → P.Holds (k a) Q y) :
    P.Holds (Program.exec s >>= k) Q x :=
  ⟨⟨d, h⟩, fun a y hexec => hk a y hexec.1 hexec.2⟩

theorem holds_read {f : Db → α} {k : α → Program β} (h : P.Inv d x) (hk : P.Holds (k (f x)) Q x) :
    P.Holds (Program.read f >>= k) Q x := by
  refine ⟨⟨d, h⟩, fun a y hexec => ?_⟩
  have heq : (f x, x) = (a, y) := Option.some.inj hexec.2
  obtain ⟨rfl, rfl⟩ := Prod.mk.inj heq
  exact hk

theorem holds_require {p : Program (Except String α)} {k : α → Program β}
    (hp : P.Holds p (fun _ y => P.Inv d y) x) (hk : ∀ a y, P.Inv d y → P.Holds (k a) Q y)
    (herror : ∀ e y, P.Inv d y → Q (.error e) y) : P.Holds (Program.require p >>= k) Q x := by
  refine holds_bind (R := fun _ y => P.Inv d y) ?_ hk herror
  exact holds_bind hp (fun a y hy => Prog.wp_ofExcept.mpr hy) fun _ _ hy => hy

end Rules

theorem Inv.weaken {d' : Duties} (h : P.Inv d x) (hfed : ∀ id, d'.fed id → d.fed id)
    (hbegun : ∀ id k, d'.begun id k → d.begun id k)
    (hhold : P.careful → ∀ id k, d'.hold id k → d.hold id k)
    (hleft : ∀ id ∈ d.left, id ∈ d'.left) : P.Inv d' x := by
  obtain ⟨b, status, hshows, hfits⟩ := h
  exact ⟨b, status, hshows, hfits.weaken hfed hbegun hhold hleft⟩

section Statements

theorem Inv.port {fromStr : String → Option Json} {call : Port} {a : call.Ans} (h : P.Inv d x)
    (hexec : (Stmt.port call).Exec fromStr x a y)
    (hown : ∀ id nodeId iteration, call = .createArena id nodeId iteration → id = P.runId) :
    P.Inv d y := by
  obtain ⟨b, status, hshows, hfits⟩ := h
  exact ⟨b, status, hshows.port hexec hown, hfits⟩

theorem holds_call {call : Port} (h : P.Inv d x)
    (hown : ∀ id nodeId iteration, call = .createArena id nodeId iteration → id = P.runId) :
    P.Holds (Program.exec (.port call)) (fun _ y => P.Inv d y) x :=
  ⟨⟨d, h⟩, fun _ _ hexec => h.port hexec.2 hown⟩

theorem writes_apply (update : NodeExecutionUpdate) : Writes update.status update.apply :=
  ⟨fun _ => rfl, fun _ => rfl, fun _ => rfl⟩

variable {fromStr : String → Option Json} {origin : NodeWrite} {update : NodeExecutionUpdate}

theorem Inv.updateActive {a : Unit} (h : P.Inv d x)
    (hexec : (Stmt.updateNodeExecution origin P.runId nodeId iteration update).Exec fromStr x a y)
    (hactive : nodeActive update.status = true) (hbegin : d.fed nodeId ∨ d.begun nodeId iteration) :
    P.Inv d y := by
  obtain ⟨b, status, hshows, hfits⟩ := h
  rw [← run_snd hexec]
  exact ⟨_, status, hshows.updateNodeExecution nodeId iteration update,
    hfits.put_active (writes_apply update) hactive hbegin⟩

/-- Marking an execution begins it. -/
theorem Inv.mark {a : Unit} (h : P.Inv d x)
    (hexec : (Stmt.updateNodeExecution .markRunning P.runId nodeId iteration update).Exec fromStr x a
      y) (hactive : nodeActive update.status = true) (hfed : d.fed nodeId)
    (hguard : P.guard (.updateNodeExecution .markRunning P.runId nodeId iteration update) x) :
    P.Inv (d.begin nodeId iteration) y ∧ (P.careful → ¬ d.hold nodeId iteration) := by
  obtain ⟨b, status, hshows, hfits⟩ := h
  have hpending : P.careful → ∃ e ∈ b.own, e.nodeId = nodeId ∧ e.iteration = iteration ∧
      e.status = .pending := by
    intro hc
    obtain ⟨n, hn, hkey⟩ := List.any_eq_true.mp (P.marks hc _ _ hguard)
    simp only [Bool.and_eq_true, beq_iff_eq, decide_eq_true_eq] at hkey
    rw [← hshows.board]
    exact ⟨n.snapshot, Db.mem_board_own.mpr ⟨n, hn, rfl⟩, hkey.1.1, hkey.1.2, hkey.2⟩
  obtain ⟨hbegin, hnot⟩ := hfits.begin (writes_apply update) hactive hfed hpending
  rw [← run_snd hexec]
  exact ⟨⟨_, status, hshows.updateNodeExecution nodeId iteration update, hbegin⟩, hnot⟩

/-- A success of a node that is no Condition. -/
theorem Inv.succeed {a : Unit} (h : P.Inv d x)
    (hexec : (Stmt.updateNodeExecution origin P.runId nodeId iteration update).Exec fromStr x a y)
    (hstatus : update.status = .succeeded) (hbegun : d.begun nodeId iteration)
    (hcond : isCondition P.graph nodeId = false) : P.Inv (d.release nodeId iteration) y := by
  obtain ⟨b, status, hshows, hfits⟩ := h
  have hf := writes_apply update
  rw [hstatus] at hf
  rw [← run_snd hexec]
  exact ⟨_, status, hshows.updateNodeExecution nodeId iteration update,
    hfits.put_succeeded P.accepted hf hbegun hcond⟩

/-- A success of a Condition: what its decision leaves out is still to be skipped. -/
theorem Inv.decided {a : Unit} (h : P.Inv d x)
    (hexec : (Stmt.updateNodeExecution origin P.runId nodeId iteration update).Exec fromStr x a y)
    (hstatus : update.status = .succeeded) (hbegun : d.begun nodeId iteration)
    (hcond : isCondition P.graph nodeId = true) {left : List String}
    (hleft : ∀ t, P.graph.Edge nodeId t → conditionOutputSelectsTarget P.config.router.json.fromStr
      update.outputText t = false → t ∈ left)
    (hguard : P.guard (.updateNodeExecution origin P.runId nodeId iteration update) x) :
    P.Inv { d.release nodeId iteration with left := left } y := by
  obtain ⟨b, status, hshows, hfits⟩ := h
  have hf := writes_apply update
  rw [hstatus] at hf
  have hshows' := hshows.updateNodeExecution nodeId iteration update
  rw [← run_snd hexec]
  refine ⟨_, status, hshows', hfits.succeed hf hbegun fun hc e he hp => ?_⟩
  have hdecided := P.decides hc _ _ hguard hcond hstatus
  rw [hshows'.board] at hdecided
  exact (hdecided e he hp).imp_left fun hout => hleft e.nodeId hout.1 hout.2

theorem Inv.runStatus {next : WorkflowRunStatus} {outputText errorText : Option String} {a : Unit}
    (h : P.Inv d x)
    (hexec : (Stmt.updateRunStatus P.runId next outputText errorText).Exec fromStr x a y)
    (hnext : next.isStopped = false) : P.Inv d y := by
  obtain ⟨b, status, hshows, hfits⟩ := h
  rw [← run_snd hexec]
  rcases hfits.status with hopen | ⟨rfl, hsettled⟩
  · exact ⟨b, next, hshows.updateRunStatus hopen next outputText errorText,
      hfits.withStatus (Or.inl hnext)⟩
  · exact ⟨b, .succeeded, hshows.updateRunStatus_of_terminal rfl next outputText errorText, hfits⟩

end Statements

section Programs

/-- One left-out target is done with. -/
theorem Inv.skipTarget {target : String} {rest : List String}
    (h : P.Inv { d with left := target :: rest } x) (hstart : target ≠ P.start)
    (hcondition : ∃ node ∈ P.graph.nodes, node.kind = .condition) :
    P.Inv { d with left := rest } (x.skipTarget P.runId target) := by
  obtain ⟨b, status, hshows, hfits⟩ := h
  unfold Db.skipTarget
  split
  · rename_i n hn
    obtain ⟨hown, rfl, hp⟩ := Db.pendingTarget_some hn
    refine ⟨_, status, hshows.skipPendingExecution hown hp, hfits.put_skipped ?_ hstart hcondition
      (e := n.snapshot) ?_ rfl rfl hp⟩
    · exact ⟨fun _ => rfl, fun _ => rfl, fun _ => rfl⟩
    · rw [← hshows.board]
      exact Db.mem_board_own.mpr ⟨n, hown, rfl⟩
  · rename_i hn
    refine ⟨b, status, hshows, hfits.drop fun e he hnode => ?_⟩
    rw [← hshows.board] at he
    exact Db.pendingTarget_none hn he hnode

theorem holds_markSkippedTargets {targets : List String} (h : P.Inv { d with left := targets } x)
    (hstart : ∀ t ∈ targets, t ≠ P.start)
    (hcondition : targets ≠ [] → ∃ node ∈ P.graph.nodes, node.kind = .condition) :
    P.Holds (markSkippedTargets P.runId targets) (fun r y => r = .ok () ∧
      P.Inv { d with left := [] } y) x := by
  refine Prog.wp_forEach (fun rest y => (∀ t ∈ rest, t ≠ P.start) ∧
    (rest ≠ [] → ∃ node ∈ P.graph.nodes, node.kind = .condition) ∧
      P.Inv { d with left := rest } y) ?_ ?_ ⟨hstart, hcondition, h⟩
  · exact fun y hy => ⟨rfl, hy.2.2⟩
  · rintro target rest y ⟨hne, hcond, hy⟩
    have hskip := hy.skipTarget (hne target List.mem_cons_self) (hcond (List.cons_ne_nil _ _))
    have hrest : (∀ t ∈ rest, t ≠ P.start) ∧
        (rest ≠ [] → ∃ node ∈ P.graph.nodes, node.kind = .condition) :=
      ⟨fun t ht => hne t (List.mem_cons_of_mem _ ht), fun _ => hcond (List.cons_ne_nil _ _)⟩
    refine holds_read hy ?_
    unfold Db.skipTarget at hskip
    cases htarget : y.pendingTarget P.runId target with
    | none =>
      rw [htarget] at hskip
      exact ⟨hrest.1, hrest.2, hskip⟩
    | some n =>
      rw [htarget] at hskip
      refine ⟨⟨_, hy⟩, fun a z hexec => ⟨hrest.1, hrest.2, ?_⟩⟩
      rw [← run_snd hexec.2]
      exact hskip

theorem holds_nodeContext {node : WorkflowNode} {text : String} (h : P.Inv d x) :
    P.Holds (nodeContext P.runId P.graph node text) (fun _ y => P.Inv d y) x := by
  refine holds_bind (R := fun _ y => P.Inv d y) ?_ (fun _ _ hy => hy) fun _ _ hy => hy
  refine Prog.wp_collect (P.Inv d) (fun _ _ hy => hy) (fun edge y hy => ?_) h
  refine ⟨⟨d, hy⟩, fun a z hexec => ?_⟩
  rw [← run_snd hexec.2]
  exact hy

/-- Under the guard no dispatch fails. -/
theorem holds_failDispatch {origin : NodeWrite} {message : String}
    {Q : Except String RunStep → Db → Prop} (h : P.Inv d x) :
    P.Holds (failDispatch P.runId nodeId iteration origin message) Q x := by
  refine holds_exec h fun a y hguard _ => ?_
  have hsucceeds := P.succeeds _ _ hguard
  cases hsucceeds

theorem holds_routerMutationWarning {started : Option String} (h : P.Inv d x) :
    P.Holds (routerMutationWarning P.config P.runId started) (fun _ y => P.Inv d y) x := by
  unfold routerMutationWarning
  split
  · exact h
  · refine holds_require (holds_call h nofun) (fun after y hy => ?_) fun _ _ hy => hy
    cases after with
    | none => exact hy
    | some after =>
      dsimp only
      split_ifs
      · exact hy
      · exact hy

theorem isCondition_of_find {node : WorkflowNode}
    (h : P.graph.nodes.find? (fun node => node.id == nodeId) = some node) :
    node ∈ P.graph.nodes ∧ node.id = nodeId ∧
      (isCondition P.graph nodeId = true ↔ node.kind = .condition) := by
  have hmem := List.mem_of_find?_eq_some h
  have hid : node.id = nodeId := by simpa using List.find?_some h
  exact ⟨hmem, hid, hid ▸ isCondition_iff P.accepted.nodup hmem⟩

theorem mem_conditionOutgoingTargetIds {node : WorkflowNode} {t : String} :
    t ∈ conditionOutgoingTargetIds P.graph node ↔ P.graph.Edge node.id t := by
  simp [conditionOutgoingTargetIds, WorkflowGraph.Edge, and_assoc]

/-- What the planner does not read as selected is in the list of skipped targets. -/
theorem skipped_of_agrees {node : WorkflowNode} {outputText : String}
    {selected skipped : List String}
    (h : RouteAgrees P.config.router P.graph node outputText selected skipped) :
    (∀ t, P.graph.Edge node.id t → conditionOutputSelectsTarget P.config.router.json.fromStr
      (some outputText) t = false → t ∈ skipped) ∧ ∀ t ∈ skipped, t ≠ P.start := by
  constructor
  · intro t hedge hout
    have htarget := mem_conditionOutgoingTargetIds.mpr hedge
    rcases (h.cover t).mp htarget with hselected | hskipped
    · rw [(h.planner t htarget).mpr hselected] at hout
      cases hout
    · exact hskipped
  · intro t ht
    obtain ⟨edge, hmem, _, rfl⟩ := mem_conditionOutgoingTargetIds.mp ((h.cover t).mpr (Or.inr ht))
    exact P.accepted.no_edge_into_start hmem

/-- A router that routes ends its execution; one that does not leaves it waiting. -/
theorem holds_completeConditionRouter {started : Option String} {raw : String} (h : P.Inv d x)
    (hbegun : d.begun nodeId iteration) :
    P.Holds (completeConditionRouter P.config P.runId P.graph nodeId iteration started raw)
      (fun r y => match r with
        | .ok false => P.Inv (d.release nodeId iteration) y
        | _ => P.Inv d y) x := by
  unfold completeConditionRouter
  split
  · exact h
  · rename_i node hfind
    obtain ⟨hmem, rfl, hcond⟩ := isCondition_of_find hfind
    split_ifs with hkind
    · exact h
    · have hkind : node.kind = .condition := by simpa using hkind
      refine holds_bind (holds_routerMutationWarning h) (fun warning y hy => ?_) fun _ _ hy => hy
      cases hpause : (evaluateRouterOutput P.config.router raw P.graph node warning).shouldPause with
      | true =>
        simp only [hpause, if_true]
        refine holds_exec hy fun _ z _ hexec => ?_
        have hz := hy.updateActive hexec rfl (Or.inr hbegun)
        exact holds_exec hz fun _ w _ hexec => hz.runStatus hexec rfl
      | false =>
        simp only [hpause, Bool.false_eq_true, if_false]
        have hagrees := (evaluateRouterOutput_autoRoute hpause).1
        obtain ⟨hskipped, hstart⟩ := skipped_of_agrees hagrees
        refine holds_exec hy fun _ z hguard hexec => ?_
        have hz := hy.decided hexec rfl hbegun (hcond.mpr hkind) hskipped hguard
        refine holds_bind (holds_markSkippedTargets hz hstart fun _ => ⟨node, hmem, hkind⟩) ?_ ?_
        · rintro _ w ⟨_, hw⟩
          refine hw.weaken (fun _ => id) (fun _ _ => id) (fun _ _ _ => id) ?_
          exact fun _ hid => (List.not_mem_nil hid).elim
        · rintro _ w ⟨herror, _⟩
          cases herror

/-- What dispatching an execution leaves behind. -/
def Dispatched (P : Passes) (d : Duties) (nodeId : String) (iteration : ℤ) :
    Except String RunStep → Db → Prop
  | .ok .continue, y => P.Inv d y
  | .ok .pause, y => P.Inv (d.begin nodeId iteration) y
  | .ok .stop, _ => False
  | .error _, y => P.Inv d y

theorem Inv.forget (h : P.Inv (d.begin nodeId iteration) x) : P.Inv d x :=
  h.weaken (fun _ => id) (fun _ _ => Or.inl) (fun _ _ _ => Or.inl) fun _ => id

/-- An execution that begins and ends leaves nothing behind. -/
theorem Inv.ended (h : P.Inv ((d.begin nodeId iteration).release nodeId iteration) x)
    (hnot : P.careful → ¬ d.hold nodeId iteration) : P.Inv d x := by
  refine h.weaken (fun _ => id) (fun _ _ => Or.inl) (fun hc id k hk => ⟨Or.inl hk, ?_⟩) fun _ => id
  rintro ⟨rfl, rfl⟩
  exact hnot hc hk

theorem begun_begin (d : Duties) (nodeId : String) (iteration : ℤ) :
    (d.begin nodeId iteration).begun nodeId iteration := Or.inr ⟨rfl, rfl⟩

section Execute
variable {node : WorkflowNode}

theorem isCondition_false (hnode : node ∈ P.graph.nodes) (hkind : node.kind ≠ .condition) :
    isCondition P.graph node.id = false := by
  rw [← Bool.not_eq_true, isCondition_iff P.accepted.nodup hnode]
  exact hkind

/-- A waiting execution and a run that waits for it. -/
theorem holds_wait {origin : NodeWrite} {outputText : Option String} {arenaGroupId : Option ℕ}
    (next : NodeExecutionStatus) (nextRun : WorkflowRunStatus) (started : next ≠ .pending)
    (h : P.Inv (d.begin nodeId iteration) x) (hactive : nodeActive next = true)
    (hnext : nextRun.isStopped = false) : P.Holds (do
      markNodeWaiting P.runId nodeId iteration origin next outputText arenaGroupId started
      updateRunStatus P.runId nextRun none none
      return .pause) (P.Dispatched d nodeId iteration) x := by
  refine holds_exec h fun _ y _ hexec => ?_
  have hy := h.updateActive hexec hactive (Or.inr (begun_begin d nodeId iteration))
  exact holds_exec hy fun _ z _ hexec => hy.runStatus hexec hnext

/-- A pure handler settles no Condition and skips nothing. -/
theorem handlePureNode_succeeded {applyTransform : WorkflowNode → String → Except String String}
    {context : NodeHandlerContext} {outcome : NodeHandlerOutcome}
    (h : handlePureNode applyTransform node context = .ok outcome) :
    node.kind ≠ .condition ∧ outcome.skippedTargetNodeIds = [] := by
  unfold handlePureNode at h
  split at h
  · exact ⟨by simp_all, by rw [← Except.ok.inj h]; rfl⟩
  · exact ⟨by simp_all, by rw [← Except.ok.inj h]; rfl⟩
  · cases h
  · rename_i hkind
    refine ⟨by simp [hkind], ?_⟩
    cases happly : applyTransform node context.upstreamText with
    | error e =>
      rw [happly] at h
      cases h
    | ok text =>
      rw [happly] at h
      rw [← Except.ok.inj h]
      rfl
  · exact ⟨by simp_all, by rw [← Except.ok.inj h]; rfl⟩
  · exact ⟨by simp_all, by rw [← Except.ok.inj h]; rfl⟩
  · cases h

variable (hnode : node ∈ P.graph.nodes) (hfed : d.fed node.id)
include hnode hfed

theorem holds_executeAgent (h : P.Inv d x) (hkind : node.kind ≠ .condition) :
    P.Holds (executeAgent P.runId node iteration) (P.Dispatched d node.id iteration) x := by
  refine holds_read h ?_
  split_ifs
  · exact h
  · refine holds_require (holds_call h nofun) (fun _ y hy => ?_) fun _ _ hy => hy
    refine holds_exec hy fun _ z hguard hexec => ?_
    obtain ⟨hz, hnot⟩ := hy.mark hexec rfl hfed hguard
    refine holds_exec hz fun answer w _ hexec => ?_
    have hw := hz.port hexec nofun
    match answer with
    | .ok (.completed _ outputText) =>
      refine holds_exec hw fun _ v _ hexec => ?_
      exact (hw.succeed hexec rfl (begun_begin d _ _) (isCondition_false hnode hkind)).ended hnot
    | .ok (.started _ outputText) =>
      exact holds_exec hw fun _ v _ hexec => hw.updateActive hexec rfl (Or.inl hfed)
    | .error message => exact holds_failDispatch hw

omit hnode in
theorem holds_executeCondition (h : P.Inv d x) :
    P.Holds (executeCondition P.config P.runId P.graph node iteration)
      (P.Dispatched d node.id iteration) x := by
  refine holds_require (holds_call h nofun) (fun before y hy => ?_) fun _ _ hy => hy
  split
  · exact hy
  · refine holds_require (holds_call hy nofun) (fun _ y hy => ?_) fun _ _ hy => hy
    refine holds_require (holds_call hy nofun) (fun _ y hy => ?_) fun _ _ hy => hy
    split
    · exact hy
    · refine holds_exec hy fun _ z hguard hexec => ?_
      obtain ⟨hz, hnot⟩ := hy.mark hexec rfl hfed hguard
      refine holds_exec hz fun answer w _ hexec => ?_
      have hw := hz.port hexec nofun
      match answer with
      | .ok (.completed agentRunId outputText) =>
        refine holds_exec hw fun _ v _ hexec => ?_
        have hv := hw.updateActive hexec rfl (Or.inl hfed)
        refine holds_bind (holds_completeConditionRouter hv (begun_begin d _ _)) ?_ ?_
        · intro pauses u hu
          cases pauses with
          | true => exact hu
          | false => exact hu.ended hnot
        · exact fun _ u hu => hu.forget
      | .ok (.started agentRunId _) =>
        exact holds_exec hw fun _ v _ hexec => hw.updateActive hexec rfl (Or.inl hfed)
      | .error message => exact holds_failDispatch hw

omit hnode in
theorem holds_executeArena (h : P.Inv d x) :
    P.Holds (executeArena P.runId node iteration) (P.Dispatched d node.id iteration) x := by
  refine holds_exec h fun _ z hguard hexec => ?_
  obtain ⟨hz, hnot⟩ := h.mark hexec rfl hfed hguard
  refine holds_exec hz fun answer w _ hexec => ?_
  have hw := hz.port hexec fun id nodeId k heq => (Port.createArena.inj heq).1.symm
  match answer with
  | .ok arenaGroupId => exact holds_wait .awaitingArena .awaitingArena (by decide) hw rfl rfl
  | .error message => exact holds_failDispatch hw

theorem holds_executePure {context : NodeHandlerContext} (h : P.Inv d x) :
    P.Holds (executePure P.config P.runId node iteration context)
      (P.Dispatched d node.id iteration) x := by
  refine holds_exec h fun _ z hguard hexec => ?_
  obtain ⟨hz, hnot⟩ := h.mark hexec rfl hfed hguard
  cases houtcome : handlePureNode P.config.applyTransform node context with
  | error message => exact holds_failDispatch hz
  | ok outcome =>
    cases hstatus : outcome.status with
    | succeeded =>
      have hpure := handlePureNode_succeeded houtcome
      simp only [hstatus]
      refine holds_exec hz fun _ w _ hexec => ?_
      have hw := (hz.succeed hexec rfl (begun_begin d _ _)
        (isCondition_false hnode hpure.1)).ended hnot
      rw [hpure.2]
      exact hw
    | awaitingHuman =>
      simp only [hstatus]
      exact holds_wait .awaitingHuman .awaitingHuman (by decide) hz rfl rfl
    | awaitingArena =>
      simp only [hstatus]
      exact holds_wait .awaitingArena .awaitingArena (by decide) hz rfl rfl

theorem holds_executeReadyNode {text : String} (h : P.Inv d x) :
    P.Holds (executeReadyNode P.config P.runId P.graph node iteration text)
      (P.Dispatched d node.id iteration) x := by
  refine holds_bind (holds_nodeContext h) (fun context y hy => ?_) fun _ _ hy => hy
  cases hkind : node.kind with
  | agent => exact holds_executeAgent hnode hfed hy (by rw [hkind]; nofun)
  | condition => exact holds_executeCondition hfed hy
  | arena => exact holds_executeArena hfed hy
  | _ => exact holds_executePure hnode hfed hy

end Execute

end Programs

section Trigger

/-- How many of the missing iterations belong to a node. -/
def missingCount (missing : List (WorkflowNode × ℤ)) (id : String) : ℕ :=
  missing.countP fun m => m.1.id == id

theorem missingCount_cons (m : WorkflowNode × ℤ) (rest : List (WorkflowNode × ℤ)) (id : String) :
    missingCount (m :: rest) id = missingCount rest id + if m.1.id = id then 1 else 0 := by
  unfold missingCount
  rw [List.countP_cons]
  by_cases h : m.1.id = id
  · simp [h]
  · simp [h]

/-- Node ids are unique, so a sum over the nodes picks one out. -/
theorem sum_of_nodup {nodes : List WorkflowNode} (h : (nodes.map (·.id)).Nodup) (g : String → ℕ)
    (id : String) : (nodes.map fun node => if node.id = id then g node.id else 0).sum =
      if id ∈ nodes.map (·.id) then g id else 0 := by
  induction nodes with
  | nil => rfl
  | cons node rest ih =>
    obtain ⟨hnot, hrest⟩ := List.nodup_cons.mp h
    rw [List.map_cons, List.sum_cons, ih hrest, List.map_cons]
    by_cases hid : node.id = id
    · subst hid
      rw [if_pos rfl, if_neg hnot, if_pos List.mem_cons_self, Nat.add_zero]
    · have hmem : id ∈ node.id :: rest.map (·.id) ↔ id ∈ rest.map (·.id) := by
        rw [List.mem_cons]
        exact or_iff_right fun heq => hid heq.symm
      rw [if_neg hid, Nat.zero_add]
      simp only [hmem]

variable {snapshot : RunSnapshot} {existing : String → ℕ} {latest : String → Option ℤ}
  {affected : Option (List String)}

theorem mem_missingIterations {m : WorkflowNode × ℤ}
    (h : m ∈ missingIterations P.config P.graph snapshot existing latest affected) :
    m.1 ∈ P.graph.nodes ∧ m.1.id ≠ P.start ∧ affected.all (fun ids => ids.contains m.1.id) = true := by
  unfold missingIterations at h
  obtain ⟨node, hnode, hmap⟩ := List.mem_flatMap.mp h
  obtain ⟨k, _, rfl⟩ := List.mem_map.mp hmap
  obtain ⟨hmem, hkept⟩ := List.mem_filter.mp hnode
  simp only [Bool.and_eq_true, decide_eq_true_eq] at hkept
  exact ⟨hmem, fun hstart => hkept.1 ((P.accepted.start_iff node hmem).mpr hstart), hkept.2⟩

variable (P snapshot existing latest affected) in
theorem missingCount_missingIterations (id : String) :
    missingCount (missingIterations P.config P.graph snapshot existing latest affected) id =
      if id ∈ (P.graph.nodes.filter fun node => decide (node.kind ≠ .start) &&
          affected.all fun ids => ids.contains node.id).map (·.id) then
        triggeredExecutionCount P.config.router.json.fromStr P.graph snapshot id - existing id
      else 0 := by
  unfold missingCount missingIterations
  rw [List.countP_flatMap, ← sum_of_nodup (P.accepted.nodup.sublist
    (List.Sublist.map _ List.filter_sublist)) fun id =>
      triggeredExecutionCount P.config.router.json.fromStr P.graph snapshot id - existing id]
  congr 1
  refine List.map_congr_left fun node _ => ?_
  rw [Function.comp_apply, List.countP_map]
  by_cases hid : node.id = id
  · rw [if_pos hid]
    rw [List.countP_eq_length.mpr fun k _ => by simp [hid]]
    simp
  · rw [if_neg hid, List.countP_eq_zero]
    intro k _
    simp [hid]

/-- Everything that is asked for has its execution. -/
def Caught (P : Passes) (x : Db) : Prop := ∃ b status, x.Shows P.runId b status ∧
  Fits P.config.router.json.fromStr P.graph P.start P.careful .none b status ∧
  ∀ id, b.inScope id = true → b.demand P.config.router.json.fromStr P.graph id ≤ b.live id

/-- What the loop over the missing iterations keeps: the missing ones make up for what is asked
for and not there. -/
def Missing (P : Passes) (missing : List (WorkflowNode × ℤ)) (x : Db) : Prop :=
  ∃ b status, x.Shows P.runId b status ∧
    Fits P.config.router.json.fromStr P.graph P.start P.careful .none b status ∧
    (∀ m ∈ missing, m.1 ∈ P.graph.nodes ∧ m.1.id ≠ P.start ∧ b.inScope m.1.id = true) ∧
    (∀ id, 0 < missingCount missing id →
      b.live id + missingCount missing id = b.demand P.config.router.json.fromStr P.graph id) ∧
    ∀ id, b.inScope id = true →
      b.demand P.config.router.json.fromStr P.graph id ≤ b.live id + missingCount missing id

theorem Missing.inv {missing : List (WorkflowNode × ℤ)} (h : P.Missing missing x) :
    P.Inv .none x := by
  obtain ⟨b, status, hshows, hfits, _⟩ := h
  exact ⟨b, status, hshows, hfits⟩

theorem Missing.insert {m : WorkflowNode × ℤ} {rest : List (WorkflowNode × ℤ)}
    (h : P.Missing (m :: rest) x) (hinsert : x.insertNodeExecution P.runId m.1 m.2 = .ok y) :
    P.Missing rest y := by
  obtain ⟨b, status, hshows, hfits, hnodes, hmissing, hcover⟩ := h
  obtain ⟨hshows', hnew⟩ := hshows.insertNodeExecution hinsert
  obtain ⟨hnode, hstart, hscope⟩ := hnodes m List.mem_cons_self
  have hcount := missingCount_cons m rest
  have hasked : b.live m.1.id < b.demand P.config.router.json.fromStr P.graph m.1.id := by
    have hone := hcount m.1.id
    rw [if_pos rfl] at hone
    have heq := hmissing m.1.id (by omega)
    omega
  refine ⟨_, status, hshows', hfits.insert (List.mem_map_of_mem hnode) hscope hstart hnew hasked,
    fun m' hm' => hnodes m' (List.mem_cons_of_mem m hm'), fun id hpos => ?_, fun id hid => ?_⟩
  · have hone := hcount id
    have heq := hmissing id (by omega)
    rw [Board.live_insert, Board.demand_insert]
    omega
  · have hone := hcount id
    have hle := hcover id hid
    rw [Board.live_insert, Board.demand_insert]
    omega

theorem Missing.port {fromStr : String → Option Json} {call : Port} {a : call.Ans}
    {missing : List (WorkflowNode × ℤ)} (h : P.Missing missing x)
    (hexec : (Stmt.port call).Exec fromStr x a y)
    (hown : ∀ id nodeId iteration, call = .createArena id nodeId iteration → id = P.runId) :
    P.Missing missing y := by
  obtain ⟨b, status, hshows, hrest⟩ := h
  exact ⟨b, status, hshows.port hexec hown, hrest⟩

/-- What a first look at the database finds missing. -/
theorem Inv.missing (h : P.Inv .none x) : P.Missing (missingIterations P.config P.graph
    (x.loadRunSnapshot P.runId) (x.existingExecutionCount P.runId) (x.maxExecutionIteration P.runId)
    (x.submittedAffectedNodes P.runId)) x := by
  obtain ⟨b, status, hshows, hfits⟩ := h
  have hframe := hfits.framed
  rw [← hshows.board] at hframe
  have hcount := missingCount_missingIterations P (x.loadRunSnapshot P.runId)
    (x.existingExecutionCount P.runId) (x.maxExecutionIteration P.runId)
    (x.submittedAffectedNodes P.runId)
  have hmem : ∀ id, id ∈ (P.graph.nodes.filter fun node => decide (node.kind ≠ .start) &&
      (x.submittedAffectedNodes P.runId).all fun ids => ids.contains node.id).map (·.id) →
      x.existingExecutionCount P.runId id = b.live id := by
    intro id hid
    obtain ⟨node, hnode, rfl⟩ := List.mem_map.mp hid
    have hkept := (List.mem_filter.mp hnode).2
    simp only [Bool.and_eq_true] at hkept
    rw [Db.existingExecutionCount_board hframe hkept.2, hshows.board]
  refine ⟨b, status, hshows, hfits, fun m hm => ?_, fun id hpos => ?_, fun id hid => ?_⟩
  · obtain ⟨hnode, hstart, hscope⟩ := mem_missingIterations hm
    exact ⟨hnode, hstart, hshows.board ▸ hscope⟩
  · rw [hcount] at hpos ⊢
    split_ifs at hpos ⊢ with hin
    · rw [hmem id hin, Db.triggeredExecutionCount_snapshot, hshows.board] at hpos ⊢
      omega
    · omega
  · rw [hcount]
    split_ifs with hin
    · rw [hmem id hin, Db.triggeredExecutionCount_snapshot, hshows.board]
      omega
    · have hnone : incomingEdges P.graph id = [] := by
        rw [List.eq_nil_iff_forall_not_mem]
        intro edge hedge
        obtain ⟨he, rfl⟩ := mem_incomingEdges.mp hedge
        obtain ⟨node, hnode, hid'⟩ := List.mem_map.mp (P.accepted.target_mem edge he)
        refine hin (List.mem_map.mpr ⟨node, List.mem_filter.mpr ⟨hnode, ?_⟩, hid'⟩)
        have hkind : node.kind ≠ .start := fun hk =>
          P.accepted.no_edge_into_start he (hid' ▸ (P.accepted.start_iff node hnode).mp hk)
        rw [← hshows.board] at hid
        simp only [ne_eq, hkind, not_false_eq_true, decide_true, Bool.true_and, hid']
        exact hid
      unfold Board.demand
      rw [hnone]
      exact Nat.zero_le _

theorem holds_ensureTriggeredNodeIterations (h : P.Inv .none x) :
    P.Holds (ensureTriggeredNodeIterations P.config P.runId P.graph)
      (fun r y => match r with
        | .ok _ => P.Caught y
        | .error _ => P.Inv .none y) x := by
  refine holds_read h (holds_read h (holds_read h (holds_read h ?_)))
  refine Prog.wp_forEach P.Missing ?_ ?_ h.missing
  · rintro y ⟨b, status, hshows, hfits, _, _, hcover⟩
    refine ⟨b, status, hshows, hfits, fun id hid => ?_⟩
    have hle := hcover id hid
    unfold missingCount at hle
    rwa [List.countP_nil, Nat.add_zero] at hle
  · intro m rest y hy
    refine holds_bind (R := fun r z => match r with
      | .ok _ => P.Missing rest z
      | .error _ => P.Inv .none z) ?_ (fun _ z hz => ?_) fun _ z hz => hz
    · refine holds_exec hy.inv fun a z _ hexec => ?_
      have hpair : commit y () (y.insertNodeExecution P.runId m.1 m.2) = (a, z) :=
        Option.some.inj hexec
      cases hinsert : y.insertNodeExecution P.runId m.1 m.2 with
      | ok next =>
        rw [hinsert] at hpair
        obtain ⟨rfl, rfl⟩ := Prod.mk.inj hpair
        exact hy.insert hinsert
      | error e =>
        rw [hinsert] at hpair
        obtain ⟨rfl, rfl⟩ := Prod.mk.inj hpair
        exact hy.inv
    · refine ⟨⟨.none, hz.inv⟩, fun a w hexec => ?_⟩
      have hw := hz.port hexec.2 nofun
      match a with
      | .ok _ => exact hw
      | .error e => exact hw.inv

end Trigger

end Passes

end VibeKanban.Runtime
