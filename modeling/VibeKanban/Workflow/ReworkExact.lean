import VibeKanban.Workflow.Rework

/-! The rework plan against its purpose: the affected set is a least closure, the recorded
routes decide what is skipped, and every remaining success is reused exactly once. -/
namespace VibeKanban.Workflow
open Lib Relation

section Spec
variable (fromStr : String → Option Json) (graph : WorkflowGraph) (roots : List String)
  (source : List ReworkSourceExecution)

/-- Downstream of a root. -/
def Affected (id : String) : Prop := ∃ root ∈ roots, ReflTransGen graph.Edge root id

/-- An edge a settled run took: a Condition needs a succeeded record that chose the target. -/
def RecordedRoute (a b : String) : Prop :=
  ∃ e ∈ graph.edges, e.source = a ∧ e.target = b ∧
    (isCondition graph a = true → recordSelects fromStr source e = true)

/-- An edge the new run may take: a Condition that runs again may choose any target. -/
def PermittedRoute (a b : String) : Prop :=
  ∃ e ∈ graph.edges, e.source = a ∧ e.target = b ∧
    (isCondition graph a = true → ¬ Affected graph roots a → recordSelects fromStr source e = true)

def FromStart (route : String → String → Prop) (id : String) : Prop :=
  ∃ node ∈ graph.nodes, node.kind = .start ∧ ReflTransGen route node.id id

/-- Reachable from Start through recorded routes. -/
def Recorded (id : String) : Prop := FromStart graph (RecordedRoute fromStr graph source) id

def Permitted (id : String) : Prop :=
  FromStart graph (PermittedRoute fromStr graph roots source) id

def CompleteSuccess (id : String) : Prop :=
  (∃ r ∈ source, r.nodeId = id ∧ r.status = .succeeded) ∧
    ∀ r ∈ source, r.nodeId = id → r.status = .succeeded ∨ r.status = .skipped

/-- What an accepted plan has to be. -/
structure ReworkPlan.Exact (plan : ReworkPlan) : Prop where
  roots_affected : ∀ root ∈ roots, root ∈ plan.affectedNodeIds
  affected_closed : ∀ a b, a ∈ plan.affectedNodeIds → graph.Edge a b → b ∈ plan.affectedNodeIds
  affected_least : ∀ S : Set String, (∀ root ∈ roots, root ∈ S) →
    (∀ a b, a ∈ S → graph.Edge a b → b ∈ S) → ∀ a ∈ plan.affectedNodeIds, a ∈ S
  cover : ∀ id, id ∈ graph.nodeIds ↔ id ∈ plan.affectedNodeIds ∨
    id ∈ plan.reuse.map (·.nodeId) ∨ id ∈ plan.skippedNodeIds
  affected_not_reused : ∀ id ∈ plan.affectedNodeIds, id ∉ plan.reuse.map (·.nodeId)
  affected_not_skipped : ∀ id ∈ plan.affectedNodeIds, id ∉ plan.skippedNodeIds
  reused_not_skipped : ∀ id ∈ plan.reuse.map (·.nodeId), id ∉ plan.skippedNodeIds
  no_edge_out : ∀ a b, a ∈ plan.affectedNodeIds → graph.Edge a b → b ∈ graph.nodeIds →
    b ∈ plan.affectedNodeIds
  reuse_exact : plan.reuse.Perm ((source.filter fun r => decide (r.status = .succeeded ∧
    r.nodeId ∈ graph.nodeIds ∧ r.nodeId ∉ plan.affectedNodeIds ∧
      r.nodeId ∉ plan.skippedNodeIds)).map (·.binding))
  skipped_exact : ∀ id, id ∈ plan.skippedNodeIds ↔
    id ∈ graph.nodeIds ∧ id ∉ plan.affectedNodeIds ∧ ¬ Recorded fromStr graph source id

/-- The requests that must be refused. -/
def ReworkRefused (request : Option (List String)) : Prop :=
  (∃ rs, request = some rs ∧ (rs = [] ∨ ¬ rs.Nodup ∨ (∃ r ∈ rs, r ∉ graph.nodeIds) ∨
    ∃ r ∈ rs, ¬ Permitted fromStr graph rs source r)) ∨
  ∃ id ∈ graph.nodeIds, ¬ Affected graph (request.getD graph.nodeIds) id ∧
    Permitted fromStr graph (request.getD graph.nodeIds) source id ∧ ¬ CompleteSuccess source id

end Spec

section Closure
variable {fromStr : String → Option Json} {graph : WorkflowGraph} {roots affected : List String}
  {source : List ReworkSourceExecution}

theorem mem_closure_iff {follows : WorkflowEdge → Bool} {nodes : List String} {id : String} :
    id ∈ closure graph follows (ordered nodes) ↔ ∃ a ∈ nodes,
      ReflTransGen (Follows graph.edges (·.source) (·.target) follows) a id := by
  unfold closure
  rw [mem_saturate_iff (nodup_ordered nodes) (Nat.lt_succ_self _)]
  simp only [mem_ordered]

theorem mem_downstreamClosure_iff {id : String} :
    id ∈ downstreamClosure graph (ordered roots) ↔ Affected graph roots id := by
  have he : Follows graph.edges (·.source) (·.target) (fun _ => true) = graph.Edge := by
    funext a b
    simp [Follows, WorkflowGraph.Edge]
  rw [downstreamClosure, mem_closure_iff, he, Affected]

theorem mem_permittedNodes_iff (ha : ∀ id, id ∈ affected ↔ Affected graph roots id)
    {id : String} : id ∈ permittedNodes fromStr graph affected source ↔
      Permitted fromStr graph roots source id := by
  have he : Follows graph.edges (·.source) (·.target) (fun edge =>
      !isCondition graph edge.source || affected.contains edge.source ||
        recordSelects fromStr source edge) = PermittedRoute fromStr graph roots source := by
    funext a b
    simp only [Follows, PermittedRoute, Bool.or_eq_true, Bool.not_eq_true', List.contains_eq_mem,
      decide_eq_true_eq, eq_iff_iff]
    constructor
    · rintro ⟨e, he, hf, rfl, rfl⟩
      refine ⟨e, he, rfl, rfl, fun hc hn => ?_⟩
      rcases hf with (hf | hf) | hf
      · simp [hc] at hf
      · exact absurd ((ha _).mp hf) hn
      · exact hf
    · rintro ⟨e, he, rfl, rfl, hf⟩
      refine ⟨e, he, ?_, rfl, rfl⟩
      by_cases hc : isCondition graph e.source = true
      · by_cases hn : Affected graph roots e.source
        · exact Or.inl (Or.inr ((ha _).mpr hn))
        · exact Or.inr (hf hc hn)
      · exact Or.inl (Or.inl (by simpa using hc))
  rw [permittedNodes, mem_closure_iff, he, Permitted, FromStart]
  simp only [List.mem_map, List.mem_filter, decide_eq_true_eq]
  constructor
  · rintro ⟨_, ⟨n, ⟨hn, hk⟩, rfl⟩, h⟩
    exact ⟨n, hn, hk, h⟩
  · rintro ⟨n, hn, hk, h⟩
    exact ⟨n.id, ⟨n, ⟨hn, hk⟩, rfl⟩, h⟩

theorem Affected.tail {a b : String} (ha : Affected graph roots a) (hab : graph.Edge a b) :
    Affected graph roots b := by
  obtain ⟨r, hr, h⟩ := ha
  exact ⟨r, hr, h.tail hab⟩

theorem PermittedRoute.edge {a b : String} (h : PermittedRoute fromStr graph roots source a b) :
    graph.Edge a b := by
  obtain ⟨e, he, hs, ht, _⟩ := h
  exact ⟨e, he, hs, ht⟩

theorem Affected.trans {a b : String} (ha : Affected graph roots a)
    (hab : ReflTransGen graph.Edge a b) : Affected graph roots b := by
  obtain ⟨r, hr, h⟩ := ha
  exact ⟨r, hr, h.trans hab⟩

/-- Every predecessor of an unaffected node is unaffected, so for it the permitted routes are
the recorded ones. -/
theorem permitted_iff_recorded {id : String} (hn : ¬ Affected graph roots id) :
    Permitted fromStr graph roots source id ↔ Recorded fromStr graph source id := by
  have hback : ∀ {a : String}, ReflTransGen (PermittedRoute fromStr graph roots source) a id →
      ReflTransGen (RecordedRoute fromStr graph source) a id := by
    intro a h
    induction h using ReflTransGen.head_induction_on with
    | refl => exact .refl
    | head hac hcb ih =>
      have hpath : ReflTransGen graph.Edge _ id :=
        ReflTransGen.mono (fun _ _ => PermittedRoute.edge) _ _ (ReflTransGen.head hac hcb)
      have hna := fun ha => hn (Affected.trans ha hpath)
      obtain ⟨e, he, hs, ht, hsel⟩ := hac
      exact ih.head ⟨e, he, hs, ht, fun hc => hsel hc hna⟩
  constructor
  · rintro ⟨n, hnode, hk, h⟩
    exact ⟨n, hnode, hk, hback h⟩
  · rintro ⟨n, hnode, hk, h⟩
    refine ⟨n, hnode, hk, ReflTransGen.mono ?_ _ _ h⟩
    rintro a b ⟨e, he, hs, ht, hsel⟩
    exact ⟨e, he, hs, ht, fun hc _ => hsel hc⟩

end Closure

section Reuse
variable {source : List ReworkSourceExecution} {permitted : List String}

theorem mem_succeededRecords {id : String} {r : ReworkSourceExecution} :
    r ∈ succeededRecords source id ↔ r ∈ source ∧ r.nodeId = id ∧ r.status = .succeeded := by
  simp [succeededRecords]

theorem completeSuccess_iff {id : String} :
    completeSuccess source id = true ↔ CompleteSuccess source id := by
  simp only [completeSuccess, CompleteSuccess, Bool.and_eq_true, Bool.not_eq_true',
    List.isEmpty_eq_false_iff_exists_mem, mem_succeededRecords, List.all_eq_true,
    List.mem_filter, beq_iff_eq, decide_eq_true_eq, and_imp]

/-- The loop succeeds exactly when every permitted node is completely successful, and then
splits the nodes into bindings and skipped ids. -/
theorem reuseNodes_spec (permitted : List String) (source : List ReworkSourceExecution)
    (ids : List String) :
    ((∃ message, reuseNodes permitted source ids = .error message) ∧
      ∃ id ∈ ids, id ∈ permitted ∧ ¬ CompleteSuccess source id) ∨
    (reuseNodes permitted source ids =
        .ok ((ids.filter fun id => permitted.contains id).flatMap fun id =>
          (succeededRecords source id).map (·.binding),
          ids.filter fun id => !permitted.contains id) ∧
      ∀ id ∈ ids, id ∈ permitted → CompleteSuccess source id) := by
  induction ids with
  | nil => exact Or.inr ⟨rfl, by simp⟩
  | cons id rest ih =>
    by_cases hp : id ∈ permitted
    · by_cases hc : completeSuccess source id = true
      · rcases ih with ⟨⟨m, hm⟩, bad, hbad, hbp, hbc⟩ | ⟨hok, hall⟩
        · exact Or.inl ⟨⟨m, by simp [reuseNodes, hp, hc, hm, bind, Except.bind]⟩, bad,
            List.mem_cons_of_mem _ hbad, hbp, hbc⟩
        · refine Or.inr ⟨?_, ?_⟩
          · simp [reuseNodes, hp, hc, hok, bind, Except.bind, pure, Except.pure]
          · intro x hx hxp
            rcases List.mem_cons.mp hx with rfl | hx
            · exact completeSuccess_iff.mp hc
            · exact hall x hx hxp
      · refine Or.inl ⟨⟨_, by simp [reuseNodes, hp, hc]; rfl⟩, id, List.mem_cons_self, hp, ?_⟩
        exact fun h => hc (completeSuccess_iff.mpr h)
    · rcases ih with ⟨⟨m, hm⟩, bad, hbad, hbp, hbc⟩ | ⟨hok, hall⟩
      · exact Or.inl ⟨⟨m, by simp [reuseNodes, hp, hm, bind, Except.bind]⟩, bad,
          List.mem_cons_of_mem _ hbad, hbp, hbc⟩
      · refine Or.inr ⟨?_, ?_⟩
        · simp [reuseNodes, hp, hok, bind, Except.bind, pure, Except.pure]
        · intro x hx hxp
          rcases List.mem_cons.mp hx with rfl | hx
          · exact absurd hxp hp
          · exact hall x hx hxp

/-- Collecting the records node by node is a permutation of collecting them all at once. -/
theorem flatMap_succeededRecords_perm (source : List ReworkSourceExecution) {ids : List String} (hn : ids.Nodup) :
    (ids.flatMap (succeededRecords source)).Perm
      (source.filter fun r => decide (r.status = .succeeded ∧ r.nodeId ∈ ids)) := by
  induction ids with
  | nil => simp
  | cons id rest ih =>
    obtain ⟨hid, hrest⟩ := List.nodup_cons.mp hn
    have hsplit := (List.filter_append_perm (fun r : ReworkSourceExecution => r.nodeId == id)
      (source.filter fun r => decide (r.status = .succeeded ∧ r.nodeId ∈ id :: rest))).symm
    refine List.Perm.trans ?_ hsplit.symm
    rw [List.flatMap_cons, List.filter_filter, List.filter_filter]
    refine List.Perm.append ?_ ((ih hrest).trans ?_)
    · refine List.Perm.of_eq (List.filter_congr fun r _ => ?_)
      by_cases h : r.nodeId = id
      · simp [h]
      · simp [beq_eq_false_iff_ne.mpr h]
    · refine List.Perm.of_eq (List.filter_congr fun r _ => ?_)
      by_cases h : r.nodeId = id
      · simp [h, hid]
      · simp [h]

end Reuse

section Plan
variable {fromStr : String → Option Json} {graph : WorkflowGraph}
  {source : List ReworkSourceExecution} {request : Option (List String)}

theorem affected_mem_nodeIds (ht : ∀ e ∈ graph.edges, e.target ∈ graph.nodeIds)
    {roots : List String} (hr : ∀ r ∈ roots, r ∈ graph.nodeIds) {id : String}
    (h : Affected graph roots id) : id ∈ graph.nodeIds := by
  obtain ⟨r, hroot, hpath⟩ := h
  induction hpath with
  | refl => exact hr r hroot
  | tail _ hstep _ =>
    obtain ⟨e, he, _, rfl⟩ := hstep
    exact ht e he

theorem dedup_length_ne_iff {l : List String} : l.dedup.length ≠ l.length ↔ ¬ l.Nodup := by
  constructor
  · intro h hn
    exact h (by rw [hn.dedup])
  · intro h hlen
    have heq := (List.dedup_sublist l).eq_of_length hlen
    exact h (heq ▸ l.nodup_dedup)

/-- A well-formed list of roots, or the request for every node. -/
def RootsOk (graph : WorkflowGraph) (request : Option (List String)) : Prop :=
  ∀ rs, request = some rs → rs ≠ [] ∧ rs.Nodup ∧ ∀ r ∈ rs, r ∈ graph.nodeIds

theorem affectedNodes_spec (ht : ∀ e ∈ graph.edges, e.target ∈ graph.nodeIds)
    (request : Option (List String)) :
    ((∃ message, affectedNodes graph request = .error message) ∧ ∃ rs, request = some rs ∧
      (rs = [] ∨ ¬ rs.Nodup ∨ ∃ r ∈ rs, r ∉ graph.nodeIds)) ∨
    (∃ affected, affectedNodes graph request = .ok affected ∧ RootsOk graph request ∧
      ∀ id, id ∈ affected ↔ Affected graph (request.getD graph.nodeIds) id) := by
  cases request with
  | none =>
    refine Or.inr ⟨ordered graph.nodeIds, rfl, by simp [RootsOk], fun id => ?_⟩
    rw [mem_ordered]
    exact ⟨fun h => ⟨id, h, .refl⟩, affected_mem_nodeIds ht fun _ h => h⟩
  | some rs =>
    by_cases hempty : rs = []
    · exact Or.inl ⟨⟨_, by simp [affectedNodes, hempty]; rfl⟩, rs, rfl, Or.inl hempty⟩
    by_cases hnodup : rs.Nodup
    · by_cases hknown : ∀ r ∈ rs, r ∈ graph.nodeIds
      · have hfind : rs.find? (fun id => !(ordered graph.nodeIds).contains id) = none := by
          simpa using hknown
        refine Or.inr ⟨downstreamClosure graph (ordered rs), ?_, ?_, ?_⟩
        · simp only [affectedNodes, hnodup.dedup, hfind]
          simp [hempty]
        · rintro _ ⟨⟩
          exact ⟨hempty, hnodup, hknown⟩
        · exact fun id => mem_downstreamClosure_iff
      · push Not at hknown
        obtain ⟨r, hr, hrn⟩ := hknown
        have hfind : (rs.find? fun id => !(ordered graph.nodeIds).contains id).isSome := by
          rw [List.find?_isSome]
          exact ⟨r, hr, by simpa using hrn⟩
        obtain ⟨x, hx⟩ := Option.isSome_iff_exists.mp hfind
        refine Or.inl ⟨⟨s!"Node `{x}` is not in the frozen workflow", ?_⟩, rs, rfl,
          Or.inr (Or.inr ⟨r, hr, hrn⟩)⟩
        simp only [affectedNodes, hnodup.dedup, hx]
        simp [hempty]
    · have hlen := dedup_length_ne_iff.mpr hnodup
      exact Or.inl ⟨⟨_, by simp [affectedNodes, hlen]; rfl⟩, rs, rfl, Or.inr (Or.inl hnodup)⟩

/-- What an accepted plan is, in terms of the closures; `kept` lists the nodes to reuse. -/
structure ReworkPlan.Accepted (fromStr : String → Option Json) (graph : WorkflowGraph)
    (roots : List String) (source : List ReworkSourceExecution) (plan : ReworkPlan)
    (kept : List String) : Prop where
  mem_affected : ∀ id, id ∈ plan.affectedNodeIds ↔ Affected graph roots id
  mem_kept : ∀ id, id ∈ kept ↔ id ∈ graph.nodeIds ∧ ¬ Affected graph roots id ∧
    Permitted fromStr graph roots source id
  complete : ∀ id ∈ kept, CompleteSuccess source id
  mem_skipped : ∀ id, id ∈ plan.skippedNodeIds ↔ id ∈ graph.nodeIds ∧ ¬ Affected graph roots id ∧
    ¬ Permitted fromStr graph roots source id
  skipped_nodup : plan.skippedNodeIds.Nodup
  reuse_perm : plan.reuse.Perm ((source.filter fun r =>
    decide (r.status = .succeeded ∧ r.nodeId ∈ kept)).map (·.binding))
  roots_known : ∀ root ∈ roots, root ∈ graph.nodeIds

theorem planRework_spec (fromStr : String → Option Json) (source : List ReworkSourceExecution)
    (ht : ∀ e ∈ graph.edges, e.target ∈ graph.nodeIds)
    (request : Option (List String)) :
    ((∃ message, planRework fromStr graph request source = .error message) ∧
      ReworkRefused fromStr graph source request) ∨
    (∃ plan kept, planRework fromStr graph request source = .ok plan ∧
      ¬ ReworkRefused fromStr graph source request ∧
      plan.Accepted fromStr graph (request.getD graph.nodeIds) source kept) := by
  rcases affectedNodes_spec ht request with
    ⟨⟨m, hm⟩, rs, hrs, hbad⟩ | ⟨affected, hok, hroots, haff⟩
  · refine Or.inl ⟨⟨m, by simp [planRework, hm, bind, Except.bind]⟩, Or.inl ⟨rs, hrs, ?_⟩⟩
    rcases hbad with h | h | h
    · exact Or.inl h
    · exact Or.inr (Or.inl h)
    · exact Or.inr (Or.inr (Or.inl h))
  have hperm : ∀ id, id ∈ permittedNodes fromStr graph affected source ↔
      Permitted fromStr graph (request.getD graph.nodeIds) source id :=
    fun id => mem_permittedNodes_iff haff
  set permitted := permittedNodes fromStr graph affected source with hpermitted
  set rest := (ordered graph.nodeIds).filter fun id => !affected.contains id with hrest
  have hmem : ∀ id, id ∈ rest ↔ id ∈ graph.nodeIds ∧
      ¬ Affected graph (request.getD graph.nodeIds) id := by
    intro id
    simp [hrest, haff]
  by_cases hout : ∃ r ∈ request.getD [], r ∉ permitted
  · have hfind : ((request.getD []).find? fun id => !permitted.contains id).isSome := by
      rw [List.find?_isSome]
      obtain ⟨r, hr, hrn⟩ := hout
      exact ⟨r, hr, by simpa using hrn⟩
    obtain ⟨x, hx⟩ := Option.isSome_iff_exists.mp hfind
    refine Or.inl ⟨⟨_, by
      simp only [planRework, hok, bind, Except.bind, ← hpermitted, hx]
      rfl⟩, ?_⟩
    obtain ⟨r, hr, hrn⟩ := hout
    cases request with
    | none => simp at hr
    | some rs =>
      have hbad : ¬ Permitted fromStr graph rs source r := fun h => hrn ((hperm r).mpr h)
      exact Or.inl ⟨rs, rfl, Or.inr (Or.inr (Or.inr ⟨r, hr, hbad⟩))⟩
  have hfind : (request.getD []).find? (fun id => !permitted.contains id) = none := by
    rw [List.find?_eq_none]
    push Not at hout
    intro r hr
    simpa using hout r hr
  have hplan : planRework fromStr graph request source =
      (reuseNodes permitted source rest).map fun p => ⟨affected, p.1, p.2⟩ := by
    simp only [planRework, hok, bind, Except.bind, ← hpermitted, hfind, ← hrest]
    rcases reuseNodes permitted source rest with m | p
    · rfl
    · rfl
  rcases reuseNodes_spec permitted source rest with
    ⟨⟨m, hm⟩, id, hid, hidp, hidc⟩ | ⟨hreuse, hall⟩
  · refine Or.inl ⟨⟨m, by rw [hplan, hm]; rfl⟩, Or.inr ⟨id, ((hmem id).mp hid).1,
      ((hmem id).mp hid).2, (hperm id).mp hidp, hidc⟩⟩
  refine Or.inr ⟨_, rest.filter fun id => permitted.contains id, by rw [hplan, hreuse]; rfl,
    ?_, ?_⟩
  · rintro (⟨rs, rfl, hbad⟩ | ⟨id, hid, hna, hidp, hidc⟩)
    · obtain ⟨hne, hnodup, hknown⟩ := hroots rs rfl
      rcases hbad with h | h | ⟨r, hr, h⟩ | ⟨r, hr, h⟩
      · exact hne h
      · exact h hnodup
      · exact h (hknown r hr)
      · exact hout ⟨r, hr, fun hp => h ((hperm r).mp hp)⟩
    · exact hidc (hall id ((hmem id).mpr ⟨hid, hna⟩) ((hperm id).mpr hidp))
  · have hnodup : (rest.filter fun id => permitted.contains id).Nodup :=
      ((nodup_ordered graph.nodeIds).filter _).filter _
    refine ⟨haff, ?_, ?_, ?_, ((nodup_ordered graph.nodeIds).filter _).filter _, ?_, ?_⟩
    · intro id
      simp only [List.mem_filter, hmem, List.contains_eq_mem, decide_eq_true_eq, hperm, and_assoc]
    · intro id hid
      simp only [List.mem_filter, List.contains_eq_mem, decide_eq_true_eq] at hid
      exact hall id hid.1 hid.2
    · intro id
      simp only [List.mem_filter, hmem, List.contains_eq_mem, Bool.not_eq_true',
        decide_eq_false_iff_not, hperm, and_assoc]
    · have hp := (flatMap_succeededRecords_perm source hnodup).map
        ReworkSourceExecution.binding
      rwa [List.map_flatMap] at hp
    · intro r hr
      cases request with
      | none => exact hr
      | some rs => exact (hroots rs rfl).2.2 r hr

theorem ReworkPlan.Accepted.exact {roots kept : List String} {plan : ReworkPlan}
    (ht : ∀ e ∈ graph.edges, e.target ∈ graph.nodeIds)
    (h : plan.Accepted fromStr graph roots source kept) :
    plan.Exact fromStr graph roots source := by
  have hnodes : ∀ id, Affected graph roots id → id ∈ graph.nodeIds :=
    fun id => affected_mem_nodeIds ht h.roots_known
  have hreused : ∀ id, id ∈ plan.reuse.map (·.nodeId) ↔ id ∈ kept := by
    intro id
    rw [(h.reuse_perm.map (·.nodeId)).mem_iff]
    simp only [List.map_map, List.mem_map, List.mem_filter, decide_eq_true_eq]
    constructor
    · rintro ⟨r, ⟨_, _, hk⟩, rfl⟩
      exact hk
    · intro hk
      obtain ⟨⟨r, hr, rfl, hs⟩, _⟩ := h.complete id hk
      exact ⟨r, ⟨hr, hs, hk⟩, rfl⟩
  refine ⟨?_, ?_, ?_, ?_, ?_, ?_, ?_, ?_, ?_, ?_⟩
  · exact fun r hr => (h.mem_affected r).mpr ⟨r, hr, .refl⟩
  · exact fun a b ha hab => (h.mem_affected b).mpr (((h.mem_affected a).mp ha).tail hab)
  · intro S hS hclosed a ha
    obtain ⟨r, hr, hpath⟩ := (h.mem_affected a).mp ha
    induction hpath with
    | refl => exact hS r hr
    | tail _ hstep ih =>
      exact hclosed _ _ (ih ((h.mem_affected _).mpr ⟨r, hr, by assumption⟩)) hstep
  · intro id
    rw [h.mem_affected, hreused, h.mem_kept, h.mem_skipped]
    have := hnodes id
    tauto
  · intro id ha hr
    exact ((h.mem_kept id).mp ((hreused id).mp hr)).2.1 ((h.mem_affected id).mp ha)
  · intro id ha hs
    exact ((h.mem_skipped id).mp hs).2.1 ((h.mem_affected id).mp ha)
  · intro id hr hs
    exact ((h.mem_skipped id).mp hs).2.2 ((h.mem_kept id).mp ((hreused id).mp hr)).2.2
  · exact fun a b ha hab _ => (h.mem_affected b).mpr (((h.mem_affected a).mp ha).tail hab)
  · refine h.reuse_perm.trans (List.Perm.of_eq (congrArg _ (List.filter_congr fun r _ => ?_)))
    have hk : r.nodeId ∈ kept ↔ r.nodeId ∈ graph.nodeIds ∧ r.nodeId ∉ plan.affectedNodeIds ∧
        r.nodeId ∉ plan.skippedNodeIds := by
      rw [h.mem_kept, h.mem_affected, h.mem_skipped]
      tauto
    simp only [hk]
  · intro id
    rw [h.mem_skipped, h.mem_affected]
    constructor
    · rintro ⟨hid, hna, hp⟩
      exact ⟨hid, hna, fun hr => hp ((permitted_iff_recorded hna).mpr hr)⟩
    · rintro ⟨hid, hna, hr⟩
      exact ⟨hid, hna, fun hp => hr ((permitted_iff_recorded hna).mp hp)⟩

/-- Accepted plans are exact, and refusals are exactly the requests that must be refused. -/
theorem planRework_exact (ht : ∀ e ∈ graph.edges, e.target ∈ graph.nodeIds)
    (request : Option (List String)) :
    (∀ plan, planRework fromStr graph request source = .ok plan →
      plan.Exact fromStr graph (request.getD graph.nodeIds) source) ∧
    ((∃ message, planRework fromStr graph request source = .error message) ↔
      ReworkRefused fromStr graph source request) := by
  rcases planRework_spec fromStr source ht request with
    ⟨⟨m, hm⟩, href⟩ | ⟨plan, kept, hok, hnref, hacc⟩
  · refine ⟨?_, fun _ => href, fun _ => ⟨m, hm⟩⟩
    intro plan hplan
    rw [hm] at hplan
    cases hplan
  · refine ⟨?_, ?_, fun h => absurd h hnref⟩
    · intro plan' hplan
      rw [hok] at hplan
      cases hplan
      exact hacc.exact ht
    · rintro ⟨m, hm⟩
      rw [hok] at hm
      cases hm

end Plan

section Fixture

def plainNode (id : String) (kind : WorkflowNodeKind) : WorkflowNode := ⟨id, kind, ⟨none, none⟩⟩

/-- One Condition with two Agent branches that meet again at the End. -/
def branchGraph : WorkflowGraph where
  version := 2
  nodes := [plainNode "start" .start, plainNode "condition" .condition, plainNode "left" .agent,
    plainNode "right" .agent, plainNode "end" .end]
  edges := [⟨"0", "start", "condition"⟩, ⟨"1", "condition", "left"⟩,
    ⟨"2", "condition", "right"⟩, ⟨"3", "left", "end"⟩, ⟨"4", "right", "end"⟩]
  routerExecutorConfig := none

def branchRecord (id : String) (output : String) : ReworkSourceExecution :=
  ⟨"actual-" ++ id, id, 0, .succeeded, some output⟩

def leftDecision : String := "\x7b\"selected_target_node_ids\":[\"left\"]\x7d"

def leftFromStr (text : String) : Option Json :=
  if text = leftDecision then some (.obj [("selected_target_node_ids", .strings ["left"])])
  else none

def leftSource : List ReworkSourceExecution :=
  [branchRecord "start" "start", branchRecord "condition" leftDecision,
    branchRecord "left" "left", branchRecord "end" "end"]

/-- Rework of the End of a run that went left: the right branch stays skipped. -/
theorem planRework_exact_left :
    planRework leftFromStr branchGraph (some ["end"]) leftSource = .ok ⟨["end"],
      [⟨"condition", 0, "actual-condition"⟩, ⟨"left", 0, "actual-left"⟩,
        ⟨"start", 0, "actual-start"⟩], ["right"]⟩ ∧
    ReworkPlan.Exact leftFromStr branchGraph ["end"] leftSource ⟨["end"],
      [⟨"condition", 0, "actual-condition"⟩, ⟨"left", 0, "actual-left"⟩,
        ⟨"start", 0, "actual-start"⟩], ["right"]⟩ := by
  have h : planRework leftFromStr branchGraph (some ["end"]) leftSource = .ok ⟨["end"],
      [⟨"condition", 0, "actual-condition"⟩, ⟨"left", 0, "actual-left"⟩,
        ⟨"start", 0, "actual-start"⟩], ["right"]⟩ := by rfl
  exact ⟨h, (planRework_exact (by decide) (some ["end"])).1 _ h⟩

/-- A graph with an edge to a node it does not have. -/
def danglingGraph : WorkflowGraph where
  version := 2
  nodes := [plainNode "start" .start]
  edges := [⟨"0", "start", "ghost"⟩]
  routerExecutorConfig := none

/-- The affected set then holds an id that is no node, so the three sets are no partition. -/
theorem planRework_dangling_not_exact :
    ¬ ∀ plan, planRework leftFromStr danglingGraph (some ["start"]) [] = .ok plan →
      plan.Exact leftFromStr danglingGraph ["start"] [] := by
  intro h
  have hplan : planRework leftFromStr danglingGraph (some ["start"]) [] =
    .ok ⟨["ghost", "start"], [], []⟩ := by rfl
  have hmem := ((h _ hplan).cover "ghost").mpr (Or.inl (by decide))
  revert hmem
  decide

end Fixture

end VibeKanban.Workflow
