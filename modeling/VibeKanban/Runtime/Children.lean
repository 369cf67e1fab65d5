import VibeKanban.Runtime.Sighting

/-! A run with agent runs side by side, and what a call finds after some of them have ended. -/
namespace VibeKanban.Runtime
open Lib Workflow Router

/-- A run with agent runs beside each other, and how each of them will end. -/
structure Beside (db : Db) (run : RunRow) (orchestration : ℕ)
    (children : List (NodeExecutionRow × ℕ)) (outcome : ℕ → AgentRunState) : Prop where
  keys : db.ExecutionKeys
  found : db.run? run.id = some run
  canonical : run.orchestrationRunId = some orchestration
  linked : db.linkedExecutions run.id orchestration = children
  active : ∀ c ∈ children, nodeActive c.1.status = true
  arenas : ∀ c ∈ children, c.1.arenaGroupId = none
  once : (children.map (·.1.id)).Nodup
  agents : (children.map (·.2)).Nodup
  routes : ∀ c ∈ children, Routes run.graph c.1
  stored : ∀ c ∈ children, ∃ state, db.agentRun? c.2 = some state ∧ state.status.isTerminal = false
  ends : ∀ c ∈ children, (outcome c.2).status.isTerminal = true

/-- An Arena execution that is being cancelled and whose candidates have all ended. -/
def Db.arenaEnded (db : Db) (n : NodeExecutionRow) : Bool :=
  decide (n.status = .cancelling) && n.arenaGroupId.isSome &&
    (db.orchestration.runs.filter fun o => n.arenaGroupId == o.arena).all fun o =>
      (db.orchestration.links.filter fun l => l.orchestrationRunId == o.id).all fun l =>
        db.orchestration.agentRuns.any fun s => s.agentRunId == l.agentRunId && s.status.isTerminal

section Reach
variable {db : Db} {outcome : ℕ → AgentRunState}

theorem agentRun_reach (S : List ℕ) (agentRunId : ℕ) :
    (db.reach outcome S).agentRun? agentRunId =
      (db.agentRun? agentRunId).map fun state => if agentRunId ∈ S then outcome agentRunId
        else state := by
  have hfind := find_updateWhere AgentRunStateRow.agentRunId (p := fun s => S.contains s.agentRunId)
    (f := fun s => ⟨s.agentRunId, (outcome s.agentRunId).status,
      (outcome s.agentRunId).terminalOutput, (outcome s.agentRunId).lastError⟩) (fun _ => rfl)
    db.orchestration.agentRuns agentRunId
  rw [Db.agentRun?, Db.reach, reached, hfind, Db.agentRun?]
  cases hrow : db.orchestration.agentRuns.find? fun s => s.agentRunId = agentRunId with
  | none => rfl
  | some s =>
    have hid : s.agentRunId = agentRunId := by simpa using List.find?_some hrow
    by_cases hmem : agentRunId ∈ S
    · simp [hid, hmem]
    · simp [hid, hmem]

theorem reach_append (S B : List ℕ) :
    (db.reach outcome S).reach outcome B = db.reach outcome (S ++ B) := by
  have hrows : ∀ rows, reached outcome B (reached outcome S rows) = reached outcome (S ++ B) rows := by
    intro rows
    rw [reached, reached, reached, updateWhere, updateWhere, updateWhere, List.map_map]
    refine List.map_congr_left fun s _ => ?_
    rw [Function.comp_apply]
    by_cases hS : s.agentRunId ∈ S
    · simp [hS]
    · simp [hS]
  simp only [Db.reach, hrows]

theorem reach_congr {S S' : List ℕ} (h : ∀ a, a ∈ S ↔ a ∈ S') :
    db.reach outcome S = db.reach outcome S' := by
  have hrows : ∀ rows, reached outcome S rows = reached outcome S' rows := by
    intro rows
    rw [reached, reached, updateWhere, updateWhere]
    refine List.map_congr_left fun s _ => ?_
    simp only [List.contains_eq_mem, h s.agentRunId]
  simp only [Db.reach, hrows]

/-- Ended agent runs stay ended. -/
theorem any_reach {S : List ℕ} {p : AgentRunStateRow → Bool}
    (hends : ∀ s ∈ db.orchestration.agentRuns, s.agentRunId ∈ S →
      (outcome s.agentRunId).status.isTerminal = true)
    (hp : ∀ s t : AgentRunStateRow, t.agentRunId = s.agentRunId → t.status.isTerminal = true →
      p s = true → p t = true) (h : db.orchestration.agentRuns.any p = true) :
    (db.reach outcome S).orchestration.agentRuns.any p = true := by
  obtain ⟨s, hs, hps⟩ := List.any_eq_true.mp h
  rw [List.any_eq_true]
  refine ⟨_, List.mem_map_of_mem hs, ?_⟩
  dsimp only
  split_ifs with hmem
  · exact hp s _ rfl (hends s hs (by simpa using hmem)) hps
  · exact hps

end Reach

section Sighted
variable (config : Config) (env : Surroundings) (db₀ : Db) (run : RunRow)
  (children : List (NodeExecutionRow × ℕ)) (outcome : ℕ → AgentRunState)

/-- The row of an agent run that was seen: it has ended, or its router waits. -/
def SeenRow (c : NodeExecutionRow × ℕ) (r : NodeExecutionRow) : Prop :=
  nodeTerminal r.status = true ∧
      (lateProjection config env run.graph (outcome c.2) c.1).waits = false ∨
    r.status = .awaitingHuman ∧ routerWarning config env r.outputText = none ∧
      (outcome c.2).status = .succeeded

/-- The rows after the agent runs in `S` were seen. -/
structure Sighted (S : List ℕ) (f : NodeExecutionRow → NodeExecutionRow) : Prop where
  same : ∀ n ∈ db₀.nodeExecutions, SameRow n (f n)
  active : ∀ n ∈ db₀.ownExecutions run.id, nodeActive (f n).status = true →
    nodeActive n.status = true
  unseen : ∀ c ∈ children, c.2 ∉ S → Held c.1 (f c.1)
  seen : ∀ c ∈ children, c.2 ∈ S → SeenRow config env run outcome c (f c.1)
  others : ∀ n ∈ db₀.ownExecutions run.id, (∀ c ∈ children, c.1 ≠ n) →
    nodeActive n.status = true → f n = n ∨
      (db₀.reach outcome S).arenaEnded n = true ∧ nodeActive (f n).status = false

/-- The database after the agent runs in `S` were seen. -/
structure Seen (S : List ℕ) (f : NodeExecutionRow → NodeExecutionRow) (db : Db) : Prop where
  sighted : Sighted config env db₀ run children outcome S f
  rows : db.nodeExecutions = db₀.nodeExecutions.map f
  orchestration : db.orchestration = (db₀.reach outcome S).orchestration
  queue : db.queue = db₀.queue
  nextId : db.nextId = db₀.nextId

/-- What a call finds of an agent run. -/
def sightView (S : List ℕ) (agentRunId : ℕ) : AgentRunState :=
  if agentRunId ∈ S then outcome agentRunId else (db₀.agentRun? agentRunId).getD
    (outcome agentRunId)

end Sighted

section Linked
variable {config : Config} {env : Surroundings} {db₀ : Db} {run : RunRow} {orchestration : ℕ}
  {children : List (NodeExecutionRow × ℕ)} {outcome : ℕ → AgentRunState}

theorem Beside.own (hp : Beside db₀ run orchestration children outcome)
    {c : NodeExecutionRow × ℕ} (hc : c ∈ children) : c.1 ∈ db₀.ownExecutions run.id := by
  rw [← hp.linked, Db.linkedExecutions, List.mem_flatMap] at hc
  obtain ⟨n, hn, hc⟩ := hc
  obtain ⟨l, _, rfl⟩ := List.mem_map.mp hc
  exact hn

theorem seen_initial : Seen config env db₀ run children outcome [] id db₀ := by
  refine ⟨⟨fun n _ => SameRow.refl n, fun n _ h => h, fun c _ _ => Or.inl rfl,
    fun c _ hmem => absurd hmem List.not_mem_nil, fun n _ _ _ => Or.inl rfl⟩, by simp, ?_, rfl, rfl⟩
  simp [Db.reach, reached, updateWhere]

/-- A link to an unfinished agent run makes a child. -/
theorem Beside.child (hp : Beside db₀ run orchestration children outcome)
    {n : NodeExecutionRow} (hn : n ∈ db₀.ownExecutions run.id) {l : AgentRunLinkRow}
    (hl : l ∈ db₀.orchestration.links)
    (hkey : (l.orchestrationRunId == orchestration && l.nodeKey == n.nodeId &&
      l.iteration == n.iteration) = true) {s : AgentRunStateRow}
    (hs : s ∈ db₀.orchestration.agentRuns) (hid : s.agentRunId = l.agentRunId)
    (hopen : s.status.isTerminal = false) : (n, l.agentRunId) ∈ children := by
  rw [← hp.linked, Db.linkedExecutions, List.mem_flatMap]
  refine ⟨n, hn, List.mem_map.mpr ⟨l, List.mem_filter.mpr ⟨hl, ?_⟩, rfl⟩⟩
  rw [hkey, Bool.true_and, List.any_eq_true]
  exact ⟨s, hs, by simp [hid, hopen]⟩

/-- The rows a call asks about, as it reads them. -/
def asked (children : List (NodeExecutionRow × ℕ)) (f : NodeExecutionRow → NodeExecutionRow) :
    List (NodeExecutionRow × ℕ) :=
  (children.filter fun c => nodeActive (f c.1).status).map fun c => (f c.1, c.2)

theorem mem_asked {f : NodeExecutionRow → NodeExecutionRow} {d : NodeExecutionRow × ℕ} :
    d ∈ asked children f ↔
      ∃ c ∈ children, nodeActive (f c.1).status = true ∧ (f c.1, c.2) = d := by
  simp only [asked, List.mem_map, List.mem_filter, and_assoc]

/-- The agent runs a call asks for: those whose rows are still active. -/
theorem linkedExecutions_seen (hp : Beside db₀ run orchestration children outcome)
    {S B : List ℕ} (hsub : ∀ a ∈ S ++ B, ∃ c ∈ children, c.2 = a) {f : NodeExecutionRow → NodeExecutionRow} {db : Db}
    (hf : Sighted config env db₀ run children outcome S f)
    (hrows : db.nodeExecutions = db₀.nodeExecutions.map f)
    (horch : db.orchestration = (db₀.reach outcome (S ++ B)).orchestration) :
    db.linkedExecutions run.id orchestration = asked children f := by
  have hown : db.ownExecutions run.id = (db₀.ownExecutions run.id).map f := by
    rw [Db.ownExecutions, hrows, List.filter_map, Db.ownExecutions]
    congr 1
    refine List.filter_congr fun n hn => ?_
    rw [Function.comp_apply, (hf.same n hn).runId]
  rw [asked, ← hp.linked, Db.linkedExecutions, Db.linkedExecutions, hown, List.flatMap_map,
    List.filter_flatMap, List.map_flatMap]
  refine List.flatMap_congr fun n hn => ?_
  have hsame := hf.same n (Db.mem_ownExecutions.mp hn).1
  rw [List.filter_map, List.map_map, List.filter_filter, horch]
  change _ = List.map (fun l : AgentRunLinkRow => (f n, l.agentRunId)) _
  congr 1
  refine List.filter_congr fun l hl => ?_
  rw [hsame.nodeId, hsame.iteration, Function.comp_apply]
  -- What is left is whether the agent run is found, for a link of this execution.
  cases hkey : l.orchestrationRunId == orchestration && l.nodeKey == n.nodeId &&
      l.iteration == n.iteration with
  | false => simp
  | true =>
    rw [Bool.true_and, Bool.true_and]
    cases hactive : nodeActive (f n).status with
    | true =>
      rw [hf.active n hn hactive, Db.reach, reached, updateWhere, List.any_map]
      simp only [Bool.true_or, Bool.and_true, Bool.true_and]
      congr 1
      funext s
      rw [Function.comp_apply]
      split_ifs
      · rfl
      · rfl
    | false =>
      rw [Bool.false_and, Db.reach, reached, updateWhere, List.any_map, List.any_eq_false]
      intro s hs
      rw [Function.comp_apply, Bool.false_or]
      split_ifs with hmem
      · obtain ⟨c, hc, hid⟩ := hsub s.agentRunId (by simpa using hmem)
        simp [← hid, hp.ends c hc]
      · rw [Bool.and_eq_true, beq_iff_eq, Bool.not_eq_true']
        rintro ⟨hid, hopen⟩
        have hc := hp.child hn hl hkey hs hid hopen
        have hheld := hf.unseen _ hc fun hS => hmem (by simp [hid, hS])
        rw [hheld.active (hp.active _ hc)] at hactive
        cases hactive

/-- A call sees the agent runs that have ended and finds the others as they were. -/
theorem Sighted.views (hp : Beside db₀ run orchestration children outcome) {S T : List ℕ}
    {f : NodeExecutionRow → NodeExecutionRow} {db : Db}
    (hf : Sighted config env db₀ run children outcome S f)
    (horch : db.orchestration = (db₀.reach outcome T).orchestration) :
    Views run.graph (sightView db₀ outcome T) db (asked children f) := by
  have hview : ∀ c ∈ children, db.agentRun? c.2 = some (sightView db₀ outcome T c.2) := by
    intro c hc
    obtain ⟨state, hstate, _⟩ := hp.stored c hc
    have hrun : db.agentRun? c.2 = (db₀.reach outcome T).agentRun? c.2 := by
      rw [Db.agentRun?, horch, Db.agentRun?]
    rw [hrun, agentRun_reach, hstate, sightView, hstate]
    split_ifs
    · rfl
    · rfl
  refine ⟨fun d hd => ?_, fun d hd => ?_⟩
  · obtain ⟨c, hc, _, rfl⟩ := mem_asked.mp hd
    exact hview c hc
  · obtain ⟨c, hc, _, rfl⟩ := mem_asked.mp hd
    have hsame := hf.same c.1 (Db.mem_ownExecutions.mp (hp.own hc)).1
    intro hcondition
    rw [hsame.nodeType] at hcondition
    rw [hsame.nodeId]
    exact hp.routes c hc hcondition

theorem sightView_seen {S : List ℕ} {a : ℕ} (h : a ∈ S) : sightView db₀ outcome S a = outcome a :=
  if_pos h

theorem sightView_unseen (hp : Beside db₀ run orchestration children outcome) {S : List ℕ}
    {c : NodeExecutionRow × ℕ} (hc : c ∈ children) (h : c.2 ∉ S) :
    (sightView db₀ outcome S c.2).status.isTerminal = false := by
  obtain ⟨state, hstate, hopen⟩ := hp.stored c hc
  rw [sightView, if_neg h, hstate]
  exact hopen

end Linked

section Step
variable {config : Config} {env : Surroundings} {db₀ : Db} {run : RunRow} {orchestration : ℕ}
  {children : List (NodeExecutionRow × ℕ)} {outcome : ℕ → AgentRunState}

theorem SeenRow.inactive_or_waits {c : NodeExecutionRow × ℕ} {r : NodeExecutionRow}
    (h : SeenRow config env run outcome c r) :
    nodeActive r.status = false ∧ nodeTerminal r.status = true ∨
      r.status = .awaitingHuman ∧ routerWarning config env r.outputText = none := by
  rcases h with ⟨hterminal, _⟩ | ⟨hwaits, hwarning, _⟩
  · refine Or.inl ⟨?_, hterminal⟩
    cases hs : r.status <;> simp [hs, nodeTerminal, nodeActive] at hterminal ⊢
  · exact Or.inr ⟨hwaits, hwarning⟩

theorem arenaEnded_reach (hp : Beside db₀ run orchestration children outcome) {S T : List ℕ}
    (hST : ∀ a ∈ S, a ∈ T) (hsub : ∀ a ∈ T, ∃ c ∈ children, c.2 = a) {n : NodeExecutionRow}
    (h : (db₀.reach outcome S).arenaEnded n = true) :
    (db₀.reach outcome T).arenaEnded n = true := by
  have hreach : db₀.reach outcome T = (db₀.reach outcome S).reach outcome T := by
    rw [reach_append]
    exact reach_congr fun a => by
      rw [List.mem_append]
      exact ⟨Or.inr, fun ha => ha.elim (hST a) id⟩
  rw [hreach]
  generalize db₀.reach outcome S = db at h ⊢
  rw [Db.arenaEnded, Bool.and_eq_true] at h ⊢
  refine ⟨h.1, ?_⟩
  rw [List.all_eq_true] at h ⊢
  intro o ho
  have hlinks := h.2 o ho
  rw [List.all_eq_true] at hlinks ⊢
  intro l hl
  refine any_reach (fun s _ hs => ?_) (fun s t hid hterminal hs => ?_) (hlinks l hl)
  · obtain ⟨c, hc, hid⟩ := hsub _ hs
    exact hid ▸ hp.ends c hc
  · rw [Bool.and_eq_true, hid] at *
    exact ⟨hs.1, hterminal⟩

theorem Skips.inactive {n n' : NodeExecutionRow} (h : Skips n n')
    (hn : nodeActive n.status = false) : nodeActive n'.status = false := by
  rcases h with rfl | ⟨_, rfl⟩
  · exact hn
  · rfl

theorem active_started {n : NodeExecutionRow} (h : nodeActive n.status = true) :
    n.status ≠ .pending := by
  intro hpending
  rw [hpending] at h
  cases h

/-- The row of an agent run that is seen now. -/
theorem seenRow_written {c : NodeExecutionRow × ℕ} {r : NodeExecutionRow}
    (hroutes : Routes run.graph r) (hterminal : (outcome c.2).status.isTerminal = true)
    (hlate : (projection config env run.graph (outcome c.2) r).waits = false →
      (lateProjection config env run.graph (outcome c.2) c.1).waits = false) :
    SeenRow config env run outcome c
      (r.written (projection config env run.graph (outcome c.2) r)) := by
  cases hwaits : (projection config env run.graph (outcome c.2) r).waits with
  | true =>
    obtain ⟨hstatus, hwarning⟩ := written_waits hroutes hwaits
    exact Or.inr ⟨hstatus, hwarning, (projection_waits hwaits).1⟩
  | false => exact Or.inl ⟨written_ended hroutes hterminal hwaits, hlate hwaits⟩

section Observe
variable (hp : Beside db₀ run orchestration children outcome) {S B : List ℕ}
  (hsub : ∀ a ∈ S ++ B, ∃ c ∈ children, c.2 = a) {f g : NodeExecutionRow → NodeExecutionRow}
  (hf : Sighted config env db₀ run children outcome S f)
  (hwritten : ∀ d ∈ asked children f, g d.1 =
    d.1.written (projection config env run.graph (sightView db₀ outcome (S ++ B) d.2) d.1))
  (hskips : ∀ n ∈ db₀.nodeExecutions, (∀ d ∈ asked children f, d.1 ≠ f n) → Skips (f n) (g (f n)))

include hp hf hskips in
/-- A row that is not asked about is skipped at most. -/
theorem Sighted.skips {n : NodeExecutionRow} (hn : n ∈ db₀.nodeExecutions)
    (hnot : ∀ c ∈ children, c.1 = n → nodeActive (f n).status = false) :
    Skips (f n) (g (f n)) := by
  refine hskips n hn fun d hd heq => ?_
  obtain ⟨c, hc, hactive, rfl⟩ := mem_asked.mp hd
  have hmem := (Db.mem_ownExecutions.mp (hp.own hc)).1
  have hsame : c.1 = n := by
    refine List.inj_on_of_nodup_map hp.keys.ids hmem hn ?_
    rw [← (hf.same c.1 hmem).id, ← (hf.same n hn).id]
    exact congrArg NodeExecutionRow.id heq
  rw [hsame, hnot c hc hsame] at hactive
  cases hactive

include hp hf hwritten hskips in
theorem Sighted.observe_seen {c : NodeExecutionRow × ℕ} (hc : c ∈ children)
    (hmem : c.2 ∈ S ++ B) : SeenRow config env run outcome c (g (f c.1)) := by
  have hn := (Db.mem_ownExecutions.mp (hp.own hc)).1
  have hsame := hf.same c.1 hn
  have hroutes : Routes run.graph (f c.1) := by
    intro hcondition
    rw [hsame.nodeType] at hcondition
    rw [hsame.nodeId]
    exact hp.routes c hc hcondition
  have hwrite : nodeActive (f c.1).status = true → g (f c.1) =
      (f c.1).written (projection config env run.graph (outcome c.2) (f c.1)) := by
    intro hactive
    rw [hwritten (f c.1, c.2) (mem_asked.mpr ⟨c, hc, hactive, rfl⟩), sightView_seen hmem]
  by_cases hS : c.2 ∈ S
  · rcases hf.seen c hc hS with hended | ⟨hwaits, hwarning, hsucceeded⟩
    · -- An ended row is not asked about again.
      obtain ⟨hinactive, hterminal⟩ | ⟨hwaits, _⟩ := SeenRow.inactive_or_waits (Or.inl hended)
      · have hstarted : (f c.1).status ≠ .pending := by
          intro hpending
          rw [hpending] at hterminal
          cases hterminal
        have hkeep := hf.skips hp hskips hn fun d hd heq => hinactive
        rw [hkeep.eq_of_started hstarted]
        exact Or.inl hended
      · rw [hwaits] at hended
        cases hended.1
    · rw [hwrite (by rw [hwaits]; rfl)]
      refine seenRow_written hroutes (hp.ends c hc) fun h => ?_
      rw [← projection_late (hp.ends c hc) hsame hwarning]
      exact h
  · have hheld := hf.unseen c hc hS
    rw [hwrite (hheld.active (hp.active c hc))]
    refine seenRow_written hroutes (hp.ends c hc) fun h => ?_
    rw [projection_congr (hp.ends c hc) hsame.nodeType hsame.nodeId (by rw [hheld.outputText])] at h
    by_contra hlate
    rw [projection_waits_of_late (hp.routes c hc) (Bool.eq_true_of_not_eq_false hlate)] at h
    cases h

include hp hsub hf hwritten hskips in
/-- The rows after one more batch was seen. -/
theorem Sighted.observe : Sighted config env db₀ run children outcome (S ++ B) (g ∘ f) := by
  refine ⟨fun n hn => ?_, fun n hn hactive => ?_, fun c hc hmem => ?_,
    fun c hc hmem => hf.observe_seen hp hwritten hskips hc hmem, fun n hn hnot hactive => ?_⟩
  · by_cases hask : ∃ c ∈ children, c.1 = n ∧ nodeActive (f n).status = true
    · obtain ⟨c, hc, rfl, hactive⟩ := hask
      rw [Function.comp_apply, hwritten (f c.1, c.2) (mem_asked.mpr ⟨c, hc, hactive, rfl⟩)]
      exact (hf.same c.1 hn).trans (projection_sameRow _)
    · refine (hf.same n hn).trans (Skips.sameRow (hf.skips hp hskips hn fun c hc heq => ?_))
      exact Bool.eq_false_iff.mpr fun hactive => hask ⟨c, hc, heq, hactive⟩
  · by_cases hask : ∃ c ∈ children, c.1 = n
    · obtain ⟨c, hc, rfl⟩ := hask
      exact hp.active c hc
    · have hstep := hf.skips hp hskips (Db.mem_ownExecutions.mp hn).1
        fun c hc heq => absurd ⟨c, hc, heq⟩ hask
      refine hf.active n hn ?_
      by_contra hinactive
      rw [Function.comp_apply, hstep.inactive (Bool.eq_false_iff.mpr hinactive)] at hactive
      cases hactive
  · have hheld := hf.unseen c hc fun hS => hmem (List.mem_append_left B hS)
    have hactive := hheld.active (hp.active c hc)
    rw [Function.comp_apply, hwritten (f c.1, c.2) (mem_asked.mpr ⟨c, hc, hactive, rfl⟩)]
    exact hheld.trans (projection_held (sightView_unseen hp hc hmem) (f c.1))
  · have hstep := hf.skips hp hskips (Db.mem_ownExecutions.mp hn).1
      fun c hc heq => absurd heq (hnot c hc)
    rw [Function.comp_apply]
    rcases hf.others n hn hnot hactive with hsame | ⟨hended, hinactive⟩
    · refine Or.inl ?_
      rw [hsame] at hstep ⊢
      exact hstep.eq_of_started (active_started hactive)
    · exact Or.inr ⟨arenaEnded_reach hp (fun a ha => List.mem_append_left B ha) hsub hended,
        hstep.inactive hinactive⟩

end Observe

/-- A write that ends pending rows and settled Arenas. -/
def Settles (db : Db) (n n' : NodeExecutionRow) : Prop :=
  n' = n ∨ SameRow n n' ∧ nodeActive n'.status = false ∧
    (n.status = .pending ∨ db.arenaEnded n = true)

theorem Sighted.settle (hp : Beside db₀ run orchestration children outcome) {S : List ℕ}
    {f g : NodeExecutionRow → NodeExecutionRow}
    (hf : Sighted config env db₀ run children outcome S f)
    (hg : ∀ n, Settles (db₀.reach outcome S) n (g n)) :
    Sighted config env db₀ run children outcome S (g ∘ f) := by
  have hchild : ∀ c ∈ children, g (f c.1) = f c.1 := by
    intro c hc
    have hsame := hf.same c.1 (Db.mem_ownExecutions.mp (hp.own hc)).1
    rcases hg (f c.1) with heq | ⟨_, _, hpending | hended⟩
    · exact heq
    · exfalso
      by_cases hS : c.2 ∈ S
      · rcases (hf.seen c hc hS).inactive_or_waits with ⟨_, hterminal⟩ | ⟨hwaits, _⟩
        · rw [hpending] at hterminal
          cases hterminal
        · rw [hpending] at hwaits
          cases hwaits
      · exact active_started ((hf.unseen c hc hS).active (hp.active c hc)) hpending
    · rw [Db.arenaEnded, hsame.arenaGroupId, hp.arenas c hc] at hended
      simp at hended
  refine ⟨fun n hn => ?_, fun n hn hactive => ?_, fun c hc hS => ?_, fun c hc hS => ?_,
    fun n hn hnot hactive => ?_⟩
  · rcases hg (f n) with heq | ⟨hsame, _⟩
    · rw [Function.comp_apply, heq]
      exact hf.same n hn
    · exact (hf.same n hn).trans hsame
  · rw [Function.comp_apply] at hactive
    rcases hg (f n) with heq | ⟨_, hinactive, _⟩
    · exact hf.active n hn (heq ▸ hactive)
    · rw [hinactive] at hactive
      cases hactive
  · rw [Function.comp_apply, hchild c hc]
    exact hf.unseen c hc hS
  · rw [Function.comp_apply, hchild c hc]
    exact hf.seen c hc hS
  · rw [Function.comp_apply]
    rcases hf.others n hn hnot hactive with hsame | ⟨hended, hinactive⟩
    · rw [hsame]
      rcases hg n with heq | ⟨_, hinactive, hpending | hended⟩
      · exact Or.inl heq
      · exact absurd hpending (active_started hactive)
      · exact Or.inr ⟨hended, hinactive⟩
    · refine Or.inr ⟨hended, ?_⟩
      rcases hg (f n) with heq | ⟨_, hinactive', _⟩
      · rw [heq]
        exact hinactive
      · exact hinactive'

end Step

end VibeKanban.Runtime
