import VibeKanban.Runtime.Passes

/-! The drive loop keeps the balance of the board, and a careful loop that ends under a running
run leaves an execution under way. -/
namespace VibeKanban.Runtime
open Lib Workflow

namespace Passes
variable {P : Passes} {d : Duties} {x y : Db} {text : String}

/-- A run in status running has an execution under way. -/
def Watched (P : Passes) (x : Db) : Prop := x.runStatus? P.runId = some .running →
  ∃ n ∈ x.ownExecutions P.runId, nodeActive n.status = true

theorem Inv.toNone (h : P.Inv d x) (hleft : d.left = []) : P.Inv .none x := by
  obtain ⟨b, status, hshows, hfits⟩ := h
  exact ⟨b, status, hshows, hfits.toNone hleft⟩

/-- What a pass leaves behind, by whether the loop goes on. -/
def Turned (P : Passes) : Except String Bool → Db → Prop
  | .ok false, y => P.Inv .none y ∧ (P.careful → P.Watched y)
  | _, y => P.Inv .none y

theorem holds_fetchRunStatus {β : Type} {k : WorkflowRunStatus → Program β}
    {Q : Except String β → Db → Prop} (h : P.Inv d x)
    (hk : ∀ status, x.runStatus? P.runId = some status → P.Holds (k status) Q x) :
    P.Holds (fetchRunStatus P.runId >>= k) Q x := by
  obtain ⟨b, status, hshows, hfits⟩ := h
  have hinv : P.Inv d x := ⟨b, status, hshows, hfits⟩
  refine holds_bind (R := fun r y => y = x ∧ r = .ok status) ?_ ?_ ?_
  · refine holds_read hinv ?_
    rw [hshows.status]
    exact ⟨rfl, rfl⟩
  · rintro _ y ⟨rfl, hok⟩
    obtain rfl := Except.ok.inj hok
    exact hk _ hshows.status
  · rintro _ y ⟨_, herror⟩
    cases herror

theorem watched_of_stopped {status : WorkflowRunStatus}
    (hstatus : x.runStatus? P.runId = some status) (hstopped : status.isStopped = true) :
    P.Watched x := by
  intro hrunning
  obtain rfl := Option.some.inj (hstatus.symm.trans hrunning)
  cases hstopped

theorem holds_dispatchReadyNodes {rest : List ReadyNode} {pause : Bool} (h : P.Inv d x)
    (hleft : d.left = []) (hfed : ∀ r ∈ rest, d.fed r.nodeId)
    (hpause : pause = true → ∃ id k, d.hold id k) :
    P.Holds (dispatchReadyNodes P.config P.runId P.graph text pause rest) P.Turned x := by
  induction rest generalizing d x pause with
  | nil =>
    cases pause with
    | false => exact h.toNone hleft
    | true =>
      refine ⟨h.toNone hleft, fun hc _ => ?_⟩
      obtain ⟨id, k, hk⟩ := hpause rfl
      obtain ⟨b, status, hshows, hfits⟩ := h
      obtain ⟨e, he, _, _, hactive⟩ := hfits.hold hc id k hk
      rw [← hshows.board] at he
      obtain ⟨n, hn, rfl⟩ := Db.mem_board_own.mp he
      exact ⟨n, hn, hactive⟩
  | cons ready rest ih =>
    have hrest : ∀ r ∈ rest, d.fed r.nodeId := fun r hr => hfed r (List.mem_cons_of_mem _ hr)
    refine holds_fetchRunStatus h fun status hstatus => ?_
    split
    · rename_i hstopped
      exact ⟨h.toNone hleft, fun _ => watched_of_stopped hstatus hstopped⟩
    · split
      · exact ih h hleft hrest hpause
      · rename_i node hfind
        have hmem := List.mem_of_find?_eq_some hfind
        have hid : node.id = ready.nodeId := by simpa using List.find?_some hfind
        have hnode : d.fed node.id := hid ▸ hfed ready List.mem_cons_self
        refine holds_bind (holds_executeReadyNode hmem hnode h) (fun step y hy => ?_) ?_
        · cases step with
          | «continue» => exact ih hy hleft hrest hpause
          | pause =>
            exact ih hy hleft hrest fun _ => ⟨node.id, ready.iteration, Or.inr ⟨rfl, rfl⟩⟩
          | stop => exact hy.elim
        · exact fun _ y hy => hy.toNone hleft

theorem Caught.succeed {outputText : Option String} {a : Unit} {fromStr : String → Option Json}
    (h : P.Caught x) (hterminal : allNodesTerminal (x.loadRunSnapshot P.runId) = true)
    (hexec : (Stmt.updateRunStatus P.runId .succeeded outputText none).Exec fromStr x a y) :
    P.Inv .none y ∧ P.Watched y := by
  obtain ⟨b, status, hshows, hfits, hcaught⟩ := h
  have hended : ∀ e ∈ b.own, nodeTerminal e.status = true := by
    intro e he
    rw [← hshows.board] at he
    unfold allNodesTerminal at hterminal
    rw [Bool.and_eq_true, List.all_eq_true] at hterminal
    have hstatus := hterminal.2 e (Db.mem_loadRunSnapshot_of_own he)
    rcases of_decide_eq_true hstatus with h | h | h
    · rw [h]
      rfl
    · rw [h]
      rfl
    · rw [h]
      rfl
  rw [← run_snd hexec]
  rcases hfits.status with hopen | ⟨rfl, _⟩
  · have hshows' := hshows.updateRunStatus hopen .succeeded outputText none
    exact ⟨⟨b, .succeeded, hshows', hfits.withStatus (Or.inr ⟨rfl, hended, hcaught⟩)⟩,
      watched_of_stopped hshows'.status rfl⟩
  · have hshows' := hshows.updateRunStatus_of_terminal rfl .succeeded outputText none
    exact ⟨⟨b, .succeeded, hshows', hfits⟩, watched_of_stopped hshows'.status rfl⟩

theorem fed_of_ready {r : ReadyNode} (h : r ∈ (planReadyNodes P.config.router.json.fromStr P.graph
    (x.loadRunSnapshot P.runId)).readyNodes) : r.nodeId = P.start ∨
      0 < (x.board P.runId).demand P.config.router.json.fromStr P.graph r.nodeId := by
  obtain ⟨node, _, e, _, _, _, rfl, hready⟩ := (mem_readyNodes_iff P.accepted).mp h
  rcases hready with ⟨hstart, _⟩ | hfed
  · exact Or.inl hstart
  · exact Or.inr ((Db.demand_pos_iff P.accepted).mpr hfed)

theorem nodes_ne_nil (h : (planReadyNodes P.config.router.json.fromStr P.graph
    (x.loadRunSnapshot P.runId)).readyNodes = []) : (x.loadRunSnapshot P.runId).nodes ≠ [] := by
  intro hnil
  obtain ⟨node, hnode, hid⟩ := List.mem_map.mp P.accepted.start_mem
  have hmem : readyNode node 0 ∈ (planReadyNodes P.config.router.json.fromStr P.graph
      (x.loadRunSnapshot P.runId)).readyNodes := by
    refine (mem_readyNodes_iff P.accepted).mpr ⟨node, hnode, ⟨node.id, 0, .pending, none, none⟩, ?_,
      rfl, rfl, rfl, Or.inl ⟨hid, rfl⟩⟩
    refine mem_executionSnapshots.mpr (Or.inr ⟨node, hnode, ?_, rfl⟩)
    rw [hnil]
    exact fun e he => (List.not_mem_nil he).elim
  rw [h] at hmem
  cases hmem

/-- With nothing to plan and something unfinished, an execution is under way. -/
theorem Caught.watched (h : P.Caught x) (hc : P.careful)
    (hunfinished : allNodesTerminal (x.loadRunSnapshot P.runId) = false)
    (hplan : (planReadyNodes P.config.router.json.fromStr P.graph
      (x.loadRunSnapshot P.runId)).readyNodes = []) : P.Watched x := by
  intro _
  by_contra hidle
  obtain ⟨b, status, hshows, hfits, hcaught⟩ := h
  have hactive : ∀ e ∈ b.own, nodeActive e.status = false := by
    intro e he
    rw [← hshows.board] at he
    obtain ⟨n, hn, rfl⟩ := Db.mem_board_own.mp he
    by_contra hactive
    exact hidle ⟨n, hn, by simpa [NodeExecutionRow.snapshot] using hactive⟩
  have hready : ∀ e ∈ b.own, e.status = .pending → ¬ (e.nodeId = P.start ∨
      0 < b.demand P.config.router.json.fromStr P.graph e.nodeId) := by
    intro e he hp hfed
    obtain ⟨node, hnode, hid⟩ := List.mem_map.mp (hfits.balanced.known e he).1
    have hmem : readyNode node e.iteration ∈ (planReadyNodes P.config.router.json.fromStr P.graph
        (x.loadRunSnapshot P.runId)).readyNodes := by
      refine (mem_readyNodes_iff P.accepted).mpr ⟨node, hnode, e, ?_, hp, hid.symm, rfl, ?_⟩
      · rw [← hshows.board] at he
        exact mem_executionSnapshots.mpr (Or.inl (Db.mem_loadRunSnapshot_of_own he))
      · rcases hfed with hstart | hpos
        · exact Or.inl ⟨hid.trans hstart, hfits.balanced.first e he hstart⟩
        · rw [← hshows.board, ← hid] at hpos
          exact Or.inr ((Db.demand_pos_iff P.accepted).mp hpos)
    rw [hplan] at hmem
    cases hmem
  have hpending := fun e he => (hfits.supported hc).idle hactive hready hcaught (e := e) he
  have hended : allNodesTerminal (x.loadRunSnapshot P.runId) = true := by
    unfold allNodesTerminal
    rw [Bool.and_eq_true, List.all_eq_true]
    refine ⟨by simpa using nodes_ne_nil hplan, fun e he => decide_eq_true ?_⟩
    rcases Db.mem_loadRunSnapshot.mp he with ⟨z, hz, rfl⟩ | hdisposition
    · rcases Db.mem_effectiveExecutions.mp hz with ⟨n, hn, rfl⟩ | hreused
      · have hown : n.snapshot ∈ b.own := by
          rw [← hshows.board]
          exact Db.mem_board_own.mpr ⟨n, hn, rfl⟩
        have hact := hactive _ hown
        have hpend := hpending _ hown
        have hclean := hfits.balanced.clean _ hown
        dsimp only
        cases hs : n.snapshot.status <;> simp_all [nodeActive]
      · have hmem : z.snapshot ∈ b.reused := by
          rw [← hshows.board]
          exact List.mem_map_of_mem hreused
        exact Or.inl (hfits.framed.reused _ hmem).1
    · obtain ⟨_, _, _, rfl⟩ := Db.mem_dispositionSnapshots.mp hdisposition
      exact Or.inr (Or.inr rfl)
  rw [hended] at hunfinished
  cases hunfinished

theorem holds_driveTurn (h : P.Inv .none x) :
    P.Holds (driveTurn P.config P.runId P.graph text) P.Turned x := by
  refine holds_fetchRunStatus h fun status hstatus => ?_
  split
  · rename_i hstopped
    exact ⟨h, fun _ => watched_of_stopped hstatus hstopped⟩
  · refine holds_bind (holds_ensureTriggeredNodeIterations h) (fun _ y hy => ?_) fun _ _ hy => hy
    have hinv : P.Inv .none y := by
      obtain ⟨b, status, hshows, hfits, _⟩ := hy
      exact ⟨b, status, hshows, hfits⟩
    refine holds_read hinv ?_
    split
    · rename_i hterminal
      refine holds_read hinv (holds_exec hinv fun _ z _ hexec => ?_)
      obtain ⟨hz, hwatched⟩ := hy.succeed hterminal hexec
      exact ⟨hz, fun _ => hwatched⟩
    · rename_i hunfinished
      dsimp only
      split
      · rename_i hempty
        refine ⟨hinv, fun hc => hy.watched hc (by simpa using hunfinished) ?_⟩
        exact List.isEmpty_iff.mp hempty
      · obtain ⟨b, status, hshows, hfits⟩ := hinv
        have hfed : ∀ r ∈ (planReadyNodes P.config.router.json.fromStr P.graph
            (y.loadRunSnapshot P.runId)).readyNodes, r.nodeId = P.start ∨
              0 < b.demand P.config.router.json.fromStr P.graph r.nodeId := by
          intro r hr
          rw [← hshows.board]
          exact fed_of_ready hr
        have hduties : P.Inv ⟨fun id => id = P.start ∨
            0 < b.demand P.config.router.json.fromStr P.graph id, fun _ _ => False, fun _ _ => False,
            []⟩ y := ⟨b, status, hshows, { hfits with fed := fun _ hid => hid }⟩
        exact holds_dispatchReadyNodes hduties rfl hfed nofun

/-- What the drive loop leaves behind. -/
def Returned (P : Passes) : Except String Unit → Db → Prop
  | .ok _, y => P.Inv .none y ∧ (P.careful → P.Watched y)
  | .error _, y => P.Inv .none y

theorem holds_driveWorkflowRun (text : String) (passes : ℕ) (h : P.Inv .none x) :
    P.Holds (driveWorkflowRun P.config P.runId P.graph text passes) P.Returned x := by
  induction passes generalizing x with
  | zero => exact ⟨⟨.none, h⟩, fun stuck => nomatch stuck⟩
  | succ passes ih =>
    refine holds_bind (holds_driveTurn h) (fun more y hy => ?_) fun _ _ hy => hy
    cases more with
    | true => exact ih hy
    | false => exact hy

end Passes

end VibeKanban.Runtime
