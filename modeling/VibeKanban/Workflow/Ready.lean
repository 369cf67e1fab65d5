import VibeKanban.Lib.Table
import VibeKanban.Workflow.Rework
import VibeKanban.Workflow.Validation

/-! What the ready-node planner offers, as a statement about the executions of a run. -/
namespace VibeKanban.Workflow
open Lib

section
variable {graph : WorkflowGraph}

/-- The first node with an id is the only one. -/
theorem find_node {node : WorkflowNode} (hn : graph.nodeIds.Nodup) (hmem : node ∈ graph.nodes) :
    graph.nodes.find? (fun n => n.id == node.id) = some node := by
  refine find_unique hmem (by simp) fun n hnode hid => ?_
  exact List.inj_on_of_nodup_map hn hnode hmem (by simpa using hid)

theorem find_reverse_node {node : WorkflowNode} (hn : graph.nodeIds.Nodup)
    (hmem : node ∈ graph.nodes) :
    graph.nodes.reverse.find? (fun n => n.id == node.id) = some node := by
  refine find_unique (List.mem_reverse.mpr hmem) (by simp) fun n hnode hid => ?_
  exact List.inj_on_of_nodup_map hn (List.mem_reverse.mp hnode) hmem (by simpa using hid)

theorem isCondition_iff {node : WorkflowNode} (hn : graph.nodeIds.Nodup)
    (hmem : node ∈ graph.nodes) :
    isCondition graph node.id = true ↔ node.kind = .condition := by
  simp only [isCondition, List.any_eq_true, Bool.and_eq_true, beq_iff_eq, decide_eq_true_eq]
  constructor
  · rintro ⟨n, hnode, hid, hk⟩
    rwa [← List.inj_on_of_nodup_map hn hnode hmem hid]
  · exact fun hk => ⟨node, hmem, rfl, hk⟩

variable (fromStr : String → Option Json)

/-- An execution that lets the target of an edge run: a success of the source, which a Condition
must have decided for the target. -/
def Feeds (graph : WorkflowGraph) (edge : WorkflowEdge) (e : NodeExecutionSnapshot) : Prop :=
  e.status = .succeeded ∧ e.nodeId = edge.source ∧ (isCondition graph edge.source = true →
    conditionOutputSelectsTarget fromStr e.outputText edge.target = true)

variable {fromStr}

theorem executionTriggersEdge_iff (hn : graph.nodeIds.Nodup) {edge : WorkflowEdge}
    (hs : edge.source ∈ graph.nodeIds) {e : NodeExecutionSnapshot} :
    executionTriggersEdge fromStr graph edge e = true ↔ (isCondition graph edge.source = true →
      conditionOutputSelectsTarget fromStr e.outputText edge.target = true) := by
  obtain ⟨node, hmem, hid⟩ := List.mem_map.mp hs
  have hc := isCondition_iff hn hmem
  rw [hid] at hc
  have hf := find_node hn hmem
  rw [hid] at hf
  simp only [executionTriggersEdge, hf, hc]
  by_cases hk : node.kind = .condition
  · simp [hk]
  · simp [hk]

theorem triggers_edge_iff (hn : graph.nodeIds.Nodup) {edge : WorkflowEdge}
    (hs : edge.source ∈ graph.nodeIds) {e : NodeExecutionSnapshot} :
    (decide (e.status = .succeeded) && e.nodeId == edge.source &&
      executionTriggersEdge fromStr graph edge e) = true ↔ Feeds fromStr graph edge e := by
  simp only [Bool.and_eq_true, decide_eq_true_eq, beq_iff_eq, executionTriggersEdge_iff hn hs,
    Feeds, and_assoc]

theorem succeededTriggerCountForEdge_pos (hn : graph.nodeIds.Nodup) {edge : WorkflowEdge}
    (hs : edge.source ∈ graph.nodeIds) {l : List NodeExecutionSnapshot} :
    0 < succeededTriggerCountForEdge fromStr graph edge l ↔
      ∃ e ∈ l, Feeds fromStr graph edge e := by
  rw [succeededTriggerCountForEdge, List.countP_pos_iff]
  exact exists_congr fun e => and_congr_right fun _ => triggers_edge_iff hn hs

theorem mem_incomingEdges {edge : WorkflowEdge} {id : String} :
    edge ∈ incomingEdges graph id ↔ edge ∈ graph.edges ∧ edge.target = id := by
  simp [incomingEdges]

/-- Start is ready in its first iteration, any other node once an incoming edge is fed. -/
theorem executionIsReady_iff {start : String} (hg : graph.Accepted start) {node : WorkflowNode}
    (hnode : node ∈ graph.nodes) {iteration : ℤ} {l : List NodeExecutionSnapshot} :
    executionIsReady fromStr node iteration (incomingEdges graph node.id) graph l = true ↔
      (node.id = start ∧ iteration = 0) ∨
        ∃ edge ∈ graph.edges, edge.target = node.id ∧ ∃ e ∈ l, Feeds fromStr graph edge e := by
  have hfed : (∃ edge ∈ graph.edges, edge.target = node.id ∧ ∃ e ∈ l, Feeds fromStr graph edge e) ↔
      ((incomingEdges graph node.id).any fun edge =>
        decide (0 < succeededTriggerCountForEdge fromStr graph edge l)) = true := by
    simp only [List.any_eq_true, decide_eq_true_eq, mem_incomingEdges, and_assoc]
    refine exists_congr fun edge => and_congr_right fun he => and_congr_right fun _ => ?_
    exact (succeededTriggerCountForEdge_pos hg.nodup (hg.source_mem edge he)).symm
  rw [hfed, executionIsReady]
  by_cases hin : incomingEdges graph node.id = []
  · simp [hin, hg.start_iff node hnode]
  · rw [if_neg (by simpa using hin)]
    have hstart : node.id ≠ start := by
      obtain ⟨edge, hedge⟩ := List.exists_mem_of_ne_nil _ hin
      obtain ⟨he, ht⟩ := mem_incomingEdges.mp hedge
      exact fun h => hg.no_edge_into_start he (ht.trans h)
    simp [hstart]

theorem mem_executionSnapshots {snapshot : RunSnapshot} {e : NodeExecutionSnapshot} :
    e ∈ executionSnapshots graph snapshot ↔ e ∈ snapshot.nodes ∨
      (∃ node ∈ graph.nodes, (∀ x ∈ snapshot.nodes, x.nodeId ≠ node.id) ∧
        e = ⟨node.id, 0, .pending, none, none⟩) := by
  simp only [executionSnapshots, List.mem_append, List.mem_map, List.mem_filter,
    Bool.not_eq_true', List.any_eq_false, beq_iff_eq, and_assoc]
  exact or_congr_right (exists_congr fun node => and_congr_right fun _ => and_congr_right
    fun _ => eq_comm)

/-- Only stored executions feed an edge: the supplied ones are pending. -/
theorem exists_feeds_executionSnapshots {snapshot : RunSnapshot} {edge : WorkflowEdge} :
    (∃ e ∈ executionSnapshots graph snapshot, Feeds fromStr graph edge e) ↔
      ∃ e ∈ snapshot.nodes, Feeds fromStr graph edge e := by
  constructor
  · rintro ⟨e, he, hf⟩
    rcases mem_executionSnapshots.mp he with he | ⟨node, _, _, rfl⟩
    · exact ⟨e, he, hf⟩
    · exact absurd hf.1 (by simp)
  · rintro ⟨e, he, hf⟩
    exact ⟨e, mem_executionSnapshots.mpr (Or.inl he), hf⟩

theorem mem_readyNodes_iff {start : String} (hg : graph.Accepted start) {snapshot : RunSnapshot}
    {r : ReadyNode} :
    r ∈ (planReadyNodes fromStr graph snapshot).readyNodes ↔
      ∃ node ∈ graph.nodes, ∃ e ∈ executionSnapshots graph snapshot, e.status = .pending ∧
        e.nodeId = node.id ∧ r = readyNode node e.iteration ∧
        ((node.id = start ∧ e.iteration = 0) ∨ ∃ edge ∈ graph.edges, edge.target = node.id ∧
          ∃ e ∈ snapshot.nodes, Feeds fromStr graph edge e) := by
  have hready : ∀ node ∈ graph.nodes, ∀ iteration : ℤ,
      executionIsReady fromStr node iteration (incomingEdges graph node.id) graph
        (executionSnapshots graph snapshot) = true ↔
      (node.id = start ∧ iteration = 0) ∨ ∃ edge ∈ graph.edges, edge.target = node.id ∧
        ∃ e ∈ snapshot.nodes, Feeds fromStr graph edge e := by
    intro node hnode iteration
    rw [executionIsReady_iff hg hnode]
    refine or_congr_right (exists_congr fun edge => and_congr_right fun _ => and_congr_right
      fun _ => exists_feeds_executionSnapshots)
  simp only [planReadyNodes, List.mem_filterMap, List.mem_filter, decide_eq_true_eq]
  constructor
  · rintro ⟨e, ⟨he, hp⟩, hr⟩
    split at hr
    · cases hr
    · rename_i node hf
      split_ifs at hr with hrd
      have hmem : node ∈ graph.nodes := List.mem_reverse.mp (List.mem_of_find?_eq_some hf)
      have hid : node.id = e.nodeId := by simpa using List.find?_some hf
      exact ⟨node, hmem, e, he, hp, hid.symm, (Option.some.inj hr).symm,
        (hready node hmem e.iteration).mp hrd⟩
  · rintro ⟨node, hmem, e, he, hp, hid, rfl, hrd⟩
    refine ⟨e, ⟨he, hp⟩, ?_⟩
    rw [hid, find_reverse_node hg.nodup hmem]
    simp only [(hready node hmem e.iteration).mpr hrd, if_true]

end

end VibeKanban.Workflow
