import VibeKanban.Lib.Table
import VibeKanban.WebCore.Graph

/-! Wired graphs, whose edges leave nodes by the handles that the nodes have and whose branches lead where
the edges do, and what the canonical form of a graph makes of its edges. -/
namespace VibeKanban.WebCore
open Lib

/-- An edge joins two nodes, enters no Start and leaves no End. -/
def Joins (nodes : List WorkflowNode) (edge : WorkflowEdge) : Prop :=
  ∃ source ∈ nodes, ∃ target ∈ nodes, source.id = edge.source ∧ target.id = edge.target ∧
    source.id ≠ target.id ∧ source.type ≠ .end ∧ target.type ≠ .start

/-- The edge leaves the node by the handle of a branch. -/
def LeavesBy (edge : WorkflowEdge) (node : WorkflowNode) (branchId : String) : Prop :=
  edge.source = node.id ∧ edge.sourceHandle = some ("branch:" ++ branchId)

structure Wired (graph : WorkflowGraph) : Prop where
  nodeIds : (graph.nodes.map (·.id)).Nodup
  edgeIds : (graph.edges.map (·.id)).Nodup
  joins : ∀ edge ∈ graph.edges, Joins graph.nodes edge
  handles : ∀ edge ∈ graph.edges, ∀ source ∈ graph.nodes, source.id = edge.source →
    ∃ handle ∈ getWorkflowNodeSourceHandles source,
      edge.sourceHandle = some handle.id ∧ edge.type = edgeKind handle.kind
  named : ∀ node ∈ graph.nodes, node.type = .condition →
    ∀ branch ∈ node.data.branches.getD [], branch.id.isSome
  single : ∀ node ∈ graph.nodes, node.type = .condition → ∀ branchId,
    ∀ edge ∈ graph.edges, ∀ edge' ∈ graph.edges,
      LeavesBy edge node branchId → LeavesBy edge' node branchId → edge = edge'
  targets : ∀ node ∈ graph.nodes, node.type = .condition →
    ∀ branch ∈ node.data.branches.getD [], ∀ branchId, branch.id = some branchId →
      ∀ target, branch.targetNodeId = some target ↔
        ∃ edge ∈ graph.edges, LeavesBy edge node branchId ∧ edge.target = target

/-- The keys of the branches of a Condition. -/
def branchKeys (node : WorkflowNode) : List String :=
  if node.type = .condition then
    (getWorkflowNodeSourceHandles node).map fun handle => branchKey node.id (handle.branchId.getD "")
  else []

/-- No branches of two Conditions have one key. -/
def Apart (nodes : List WorkflowNode) : Prop :=
  ∀ node ∈ nodes, ∀ node' ∈ nodes, node.id ≠ node'.id → ∀ key ∈ branchKeys node,
    key ∉ branchKeys node'

/-- An edge that leaves a Condition by a branch that has a text for an id, or a gate by a side that the
gate has. -/
structure Fits (source : WorkflowNode) (edge : WorkflowEdge) : Prop where
  branch : source.type = .condition → ∃ handle ∈ getWorkflowNodeSourceHandles source,
    handle.id ≠ "branch:" ∧ edge.sourceHandle = some handle.id
  side : source.type = .humanGate → edge.type = .rejection →
    source.data.requiredAction ≠ some .approve

/-- A graph whose canonical form is wired. -/
structure Ready (graph : WorkflowGraph) : Prop where
  nodeIds : (graph.nodes.map (·.id)).Nodup
  edgeIds : (graph.edges.map (·.id)).Nodup
  joins : ∀ edge ∈ graph.edges, Joins graph.nodes edge
  fits : ∀ edge ∈ graph.edges, ∀ source ∈ graph.nodes, source.id = edge.source → Fits source edge
  single : ∀ node ∈ graph.nodes, node.type = .condition → ∀ branchId,
    ∀ edge ∈ graph.edges, ∀ edge' ∈ graph.edges,
      LeavesBy edge node branchId → LeavesBy edge' node branchId → edge = edge'
  apart : Apart graph.nodes

section Texts

theorem append_cancel {s a b : String} (h : s ++ a = s ++ b) : a = b := by
  have hlist := congrArg String.toList h
  rw [String.toList_append, String.toList_append] at hlist
  exact String.toList_inj.mp (List.append_cancel_left hlist)

theorem startsWith_append (start rest : String) : startsWith (start ++ rest) start = true := by
  rw [startsWith, String.toList_append]
  exact List.isPrefixOf_iff_prefix.mpr (List.prefix_append _ _)

theorem startsWith_iff {s start : String} : startsWith s start = true ↔ ∃ rest, s = start ++ rest := by
  constructor
  · intro h
    obtain ⟨rest, hrest⟩ := List.isPrefixOf_iff_prefix.mp h
    refine ⟨String.ofList rest, ?_⟩
    rw [← String.toList_inj, String.toList_append, String.toList_ofList, hrest]
  · rintro ⟨rest, rfl⟩
    exact startsWith_append start rest

theorem branchId_of_handle (branchId : String) :
    String.ofList (("branch:" ++ branchId).toList.drop 7) = branchId := by
  rw [String.toList_append, List.drop_left' (by decide), String.ofList_toList]

theorem branchKey_cancel {nodeId a b : String} (h : branchKey nodeId a = branchKey nodeId b) :
    a = b := append_cancel h

end Texts

section Handles

theorem mem_conditionHandles {node : WorkflowNode} (hnode : node.type = .condition)
    {handle : WorkflowSemanticHandle} :
    handle ∈ getWorkflowNodeSourceHandles node ↔
      ∃ entry ∈ (node.data.branches.getD []).zipIdx,
        branchHandle node.id entry.1 entry.2 = handle := by
  rw [getWorkflowNodeSourceHandles, hnode]
  exact List.mem_map

/-- The handles of a Condition are named after its branches. -/
theorem conditionHandle {node : WorkflowNode} (hnode : node.type = .condition)
    {handle : WorkflowSemanticHandle} (h : handle ∈ getWorkflowNodeSourceHandles node) :
    ∃ branchId, handle.branchId = some branchId ∧ handle.id = "branch:" ++ branchId ∧
      handle.kind = .conditionBranch := by
  obtain ⟨entry, _, rfl⟩ := (mem_conditionHandles hnode).mp h
  exact ⟨_, rfl, rfl, rfl⟩

/-- The handles of the nodes that are not Conditions. -/
def plainHandles : List WorkflowSemanticHandle :=
  [⟨"approve", .approve, "Approve", none⟩, ⟨"reject", .reject, "Reject", none⟩,
    ⟨"winner", .winner, "Winner", none⟩, ⟨"default", .default, "Next", none⟩]

theorem plainHandle {node : WorkflowNode} (hnode : node.type ≠ .condition)
    {handle : WorkflowSemanticHandle} (h : handle ∈ getWorkflowNodeSourceHandles node) :
    handle ∈ plainHandles := by
  unfold getWorkflowNodeSourceHandles at h
  cases htype : node.type with
  | condition => exact absurd htype hnode
  | «end» => simp [htype] at h
  | humanGate =>
    simp only [htype] at h
    split_ifs at h
    · exact List.mem_append_left _ h
    · exact List.mem_append_left [_, _] h
  | start | agent | transform | arena =>
    simp only [htype, List.mem_singleton] at h
    subst h
    simp [plainHandles]

/-- The kind of a handle goes with its id. -/
theorem handle_kind {node : WorkflowNode} {handle handle' : WorkflowSemanticHandle}
    (h : handle ∈ getWorkflowNodeSourceHandles node)
    (h' : handle' ∈ getWorkflowNodeSourceHandles node) (hid : handle.id = handle'.id) :
    handle.kind = handle'.kind := by
  by_cases hnode : node.type = .condition
  · obtain ⟨_, _, _, hkind⟩ := conditionHandle hnode h
    obtain ⟨_, _, _, hkind'⟩ := conditionHandle hnode h'
    rw [hkind, hkind']
  · have hplain : ∀ handle ∈ plainHandles, ∀ handle' ∈ plainHandles,
        handle.id = handle'.id → handle.kind = handle'.kind := by decide
    exact hplain handle (plainHandle hnode h) handle' (plainHandle hnode h') hid

/-- A gate whose edges can reject does not only approve. -/
theorem side_of_handle {node : WorkflowNode} {handle : WorkflowSemanticHandle}
    (hnode : node.type = .humanGate) (h : handle ∈ getWorkflowNodeSourceHandles node)
    (hkind : edgeKind handle.kind = .rejection) : node.data.requiredAction ≠ some .approve := by
  intro happrove
  simp only [getWorkflowNodeSourceHandles, hnode, happrove, if_true, List.mem_singleton] at h
  rw [h] at hkind
  contradiction

/-- Only Conditions have handles of branches. -/
theorem condition_of_branchHandle {node : WorkflowNode} {handle : WorkflowSemanticHandle}
    (h : handle ∈ getWorkflowNodeSourceHandles node) (hstart : startsWith handle.id "branch:") :
    node.type = .condition := by
  by_contra hnode
  have hplain : ∀ handle ∈ plainHandles, startsWith handle.id "branch:" = false := by decide
  rw [hplain handle (plainHandle hnode h)] at hstart
  contradiction

theorem getWorkflowEdgeKindForHandle_eq_some {node : WorkflowNode} {sourceHandle : String}
    {kind : WorkflowEdgeKind} :
    getWorkflowEdgeKindForHandle node sourceHandle = some kind ↔
      ∃ handle ∈ getWorkflowNodeSourceHandles node,
        handle.id = sourceHandle ∧ edgeKind handle.kind = kind := by
  rw [getWorkflowEdgeKindForHandle, Option.map_eq_some_iff]
  constructor
  · rintro ⟨handle, hfind, hkind⟩
    exact ⟨handle, List.mem_of_find?_eq_some hfind, by simpa using List.find?_some hfind, hkind⟩
  · rintro ⟨handle, hhandle, hid, rfl⟩
    have hsome : ((getWorkflowNodeSourceHandles node).find?
        fun candidate => candidate.id == sourceHandle).isSome := by
      rw [List.find?_isSome]
      exact ⟨handle, hhandle, by simpa using hid⟩
    obtain ⟨found, hfound⟩ := Option.isSome_iff_exists.mp hsome
    have hfoundId : found.id = sourceHandle := by simpa using List.find?_some hfound
    have hkind := handle_kind (List.mem_of_find?_eq_some hfound) hhandle (hfoundId.trans hid.symm)
    exact ⟨found, hfound, by rw [hkind]⟩

/-- A handle on the node, with the kind of edges that leave by it. -/
theorem kindForHandle_ne_none {node : WorkflowNode} {sourceHandle : String} :
    getWorkflowEdgeKindForHandle node sourceHandle ≠ none ↔
      ∃ handle ∈ getWorkflowNodeSourceHandles node, handle.id = sourceHandle := by
  rw [Option.ne_none_iff_exists']
  constructor
  · rintro ⟨kind, hkind⟩
    obtain ⟨handle, hhandle, hid, _⟩ := getWorkflowEdgeKindForHandle_eq_some.mp hkind
    exact ⟨handle, hhandle, hid⟩
  · rintro ⟨handle, hhandle, hid⟩
    exact ⟨_, getWorkflowEdgeKindForHandle_eq_some.mpr ⟨handle, hhandle, hid, rfl⟩⟩

theorem mem_branchKeys {node : WorkflowNode} {key : String} :
    key ∈ branchKeys node ↔ node.type = .condition ∧
      ∃ branchId, key = branchKey node.id branchId ∧
        ∃ handle ∈ getWorkflowNodeSourceHandles node, handle.id = "branch:" ++ branchId := by
  unfold branchKeys
  split_ifs with hnode
  · simp only [List.mem_map, hnode, true_and]
    constructor
    · rintro ⟨handle, hhandle, rfl⟩
      obtain ⟨branchId, hbranch, hid, _⟩ := conditionHandle hnode hhandle
      exact ⟨branchId, by rw [hbranch, Option.getD_some], handle, hhandle, hid⟩
    · rintro ⟨branchId, rfl, handle, hhandle, hid⟩
      obtain ⟨branchId', hbranch, hid', _⟩ := conditionHandle hnode hhandle
      have hsame := append_cancel (hid'.symm.trans hid)
      exact ⟨handle, hhandle, by rw [hbranch, Option.getD_some, hsame]⟩
  · simp [hnode]

end Handles

section Canonical
variable {graph : WorkflowGraph} {node : WorkflowNode} {edge : WorkflowEdge}

/-- The nodes of the canonical form before its branches get their targets. -/
def canonicalNodes (graph : WorkflowGraph) : List WorkflowNode :=
  graph.nodes.zipIdx.map fun entry => canonicalNode entry.1 entry.2

def canonicalEdges (graph : WorkflowGraph) : List WorkflowEdge :=
  graph.edges.map (canonicalEdge (canonicalNodes graph))

theorem canonicalize_nodes : (canonicalizeWorkflowAuthoringGraph graph).nodes =
    (canonicalNodes graph).map (targetBranches (canonicalEdges graph)) := rfl

theorem canonicalize_edges :
    (canonicalizeWorkflowAuthoringGraph graph).edges = canonicalEdges graph := rfl

@[simp] theorem canonicalNode_id (i : ℕ) : (canonicalNode node i).id = node.id := rfl

@[simp] theorem canonicalNode_type (i : ℕ) : (canonicalNode node i).type = node.type := rfl

@[simp] theorem canonicalNode_requiredAction (i : ℕ) :
    (canonicalNode node i).data.requiredAction = node.data.requiredAction := rfl

@[simp] theorem targetBranches_id (edges : List WorkflowEdge) :
    (targetBranches edges node).id = node.id := by
  unfold targetBranches
  split_ifs <;> rfl

@[simp] theorem targetBranches_type (edges : List WorkflowEdge) :
    (targetBranches edges node).type = node.type := by
  unfold targetBranches
  split_ifs <;> rfl

theorem canonicalEdge_joins (nodes : List WorkflowNode) :
    (canonicalEdge nodes edge).id = edge.id ∧ (canonicalEdge nodes edge).source = edge.source ∧
      (canonicalEdge nodes edge).target = edge.target := by
  unfold canonicalEdge
  cases nodeById nodes edge.source with
  | none => exact ⟨rfl, rfl, rfl⟩
  | some source => exact ⟨rfl, rfl, rfl⟩

/-- The canonical form of a node has its handles. -/
theorem handles_canonicalNode (i : ℕ) :
    getWorkflowNodeSourceHandles (canonicalNode node i) = getWorkflowNodeSourceHandles node := by
  unfold getWorkflowNodeSourceHandles
  cases htype : node.type with
  | condition =>
    simp only [canonicalNode_type, htype]
    apply List.ext_getElem
    · simp [canonicalNode, canonicalData, htype]
    · intro n h h'
      simp [canonicalNode, canonicalData, htype, branchHandle]
  | humanGate =>
    simp only [canonicalNode_type, htype]
    rfl
  | start | «end» | agent | transform | arena => simp only [canonicalNode_type, htype]

theorem handles_targetBranches (edges : List WorkflowEdge) :
    getWorkflowNodeSourceHandles (targetBranches edges node) =
      getWorkflowNodeSourceHandles node := by
  by_cases hnode : node.type = .condition
  · unfold getWorkflowNodeSourceHandles
    simp only [targetBranches_type, hnode]
    apply List.ext_getElem
    · simp [targetBranches, hnode]
    · intro n h h'
      simp [targetBranches, hnode, branchHandle]
  · rw [targetBranches, if_pos hnode]

theorem branchKeys_of_handles {node' : WorkflowNode} (hid : node'.id = node.id)
    (htype : node'.type = node.type)
    (hhandles : getWorkflowNodeSourceHandles node' = getWorkflowNodeSourceHandles node) :
    branchKeys node' = branchKeys node := by
  rw [branchKeys, branchKeys, htype, hhandles, hid]

theorem mem_canonicalNodes {node' : WorkflowNode} (h : node' ∈ canonicalNodes graph) :
    ∃ node ∈ graph.nodes, ∃ i, node' = canonicalNode node i := by
  obtain ⟨entry, hentry, rfl⟩ := List.mem_map.mp h
  exact ⟨entry.1, List.fst_mem_of_mem_zipIdx hentry, entry.2, rfl⟩

theorem canonicalNode_mem (h : node ∈ graph.nodes) :
    ∃ i, canonicalNode node i ∈ canonicalNodes graph := by
  obtain ⟨i, hi, rfl⟩ := List.mem_iff_getElem.mp h
  refine ⟨i, List.mem_map.mpr ⟨(graph.nodes[i], i), ?_, rfl⟩⟩
  exact List.mk_mem_zipIdx_iff_getElem?.mpr (List.getElem?_eq_getElem hi)

theorem canonicalNodes_ids : (canonicalNodes graph).map (·.id) = graph.nodes.map (·.id) := by
  rw [canonicalNodes, List.map_map]
  have hfst : graph.nodes.zipIdx.map Prod.fst = graph.nodes := List.zipIdx_map_fst _ _
  conv_rhs => rw [← hfst, List.map_map]
  rfl

theorem nodeById_eq_some {nodes : List WorkflowNode} (hunique : (nodes.map (·.id)).Nodup) {id : String} :
    nodeById nodes id = some node ↔ node ∈ nodes ∧ node.id = id := by
  have hreverse : (nodes.reverse.map (·.id)).Nodup := by
    rw [List.map_reverse]
    exact List.nodup_reverse.mpr hunique
  rw [nodeById, find_key_eq_some hreverse, List.mem_reverse]

theorem canonicalEdge_handle (hunique : (graph.nodes.map (·.id)).Nodup) (hnode : node ∈ graph.nodes)
    (hsource : node.id = edge.source) :
    ∃ i, (canonicalEdge (canonicalNodes graph) edge).sourceHandle =
        some (resolveSemanticSourceHandle (canonicalNode node i) edge) ∧
      (canonicalEdge (canonicalNodes graph) edge).type =
        (getWorkflowEdgeKindForHandle (canonicalNode node i)
          (resolveSemanticSourceHandle (canonicalNode node i) edge)).getD edge.type := by
  obtain ⟨i, hmem⟩ := canonicalNode_mem hnode
  have hfind : nodeById (canonicalNodes graph) edge.source = some (canonicalNode node i) := by
    rw [nodeById_eq_some (canonicalNodes_ids ▸ hunique)]
    exact ⟨hmem, hsource⟩
  refine ⟨i, ?_⟩
  rw [canonicalEdge, hfind]
  exact ⟨rfl, rfl⟩

/-- The handle that an edge which fits gets is one of the node. -/
theorem Fits.resolve (h : Fits node edge) (hend : node.type ≠ .end) (i : ℕ) :
    ∃ handle ∈ getWorkflowNodeSourceHandles node,
      resolveSemanticSourceHandle (canonicalNode node i) edge = handle.id ∧
        handle.id ≠ "branch:" ∧ (node.type = .condition → edge.sourceHandle = some handle.id) := by
  unfold resolveSemanticSourceHandle
  cases htype : node.type with
  | condition =>
    obtain ⟨handle, hhandle, hname, hedge⟩ := h.branch htype
    obtain ⟨branchId, _, hid, _⟩ := conditionHandle htype hhandle
    have hstart : startsWith handle.id "branch:" = true := hid ▸ startsWith_append _ _
    refine ⟨handle, hhandle, ?_, hname, fun _ => hedge⟩
    simp only [canonicalNode_type, htype, hedge, Option.filter, hstart, if_true]
  | humanGate =>
    simp only [canonicalNode_type, htype]
    split_ifs with hreject
    · refine ⟨⟨"reject", .reject, "Reject", none⟩, ?_, rfl, by decide, fun h => nomatch h⟩
      simp [getWorkflowNodeSourceHandles, htype, h.side htype hreject]
    · refine ⟨⟨"approve", .approve, "Approve", none⟩, ?_, rfl, by decide, fun h => nomatch h⟩
      simp only [getWorkflowNodeSourceHandles, htype]
      split_ifs
      · exact List.mem_cons_self
      · exact List.mem_cons_self
  | «end» => exact absurd htype hend
  | arena =>
    refine ⟨⟨"winner", .winner, "Winner", none⟩, ?_, by simp [htype], by decide, fun h => nomatch h⟩
    simp [getWorkflowNodeSourceHandles, htype]
  | start | agent | transform =>
    refine ⟨⟨"default", .default, "Next", none⟩, ?_, by simp [htype], by decide, fun h => nomatch h⟩
    simp [getWorkflowNodeSourceHandles, htype]

/-- What the canonical form makes of an edge that leaves a node. -/
theorem Ready.canonicalEdge (h : Ready graph) (hedge : edge ∈ graph.edges)
    (hnode : node ∈ graph.nodes) (hsource : node.id = edge.source) :
    ∃ handle ∈ getWorkflowNodeSourceHandles node, handle.id ≠ "branch:" ∧
      (canonicalEdge (canonicalNodes graph) edge).sourceHandle = some handle.id ∧
      (canonicalEdge (canonicalNodes graph) edge).type = edgeKind handle.kind ∧
      (node.type = .condition → edge.sourceHandle = some handle.id) := by
  obtain ⟨source, hmem, _, _, hid, _, _, hend, _⟩ := h.joins edge hedge
  obtain rfl : source = node := List.inj_on_of_nodup_map h.nodeIds hmem hnode (hid.trans hsource.symm)
  obtain ⟨i, hhandle, htype⟩ := canonicalEdge_handle h.nodeIds hnode hsource
  obtain ⟨handle, hin, hresolve, hname, hcondition⟩ :=
    (h.fits edge hedge source hnode hsource).resolve hend i
  have hkind : getWorkflowEdgeKindForHandle (canonicalNode source i) handle.id =
      some (edgeKind handle.kind) :=
    getWorkflowEdgeKindForHandle_eq_some.mpr ⟨handle, (handles_canonicalNode i).symm ▸ hin, rfl, rfl⟩
  refine ⟨handle, hin, hname, by rw [hhandle, hresolve], ?_, hcondition⟩
  rw [htype, hresolve, hkind, Option.getD_some]

/-- Edges leave a Condition as before. -/
theorem Ready.leavesBy (h : Ready graph) (hedge : edge ∈ graph.edges) (hnode : node ∈ graph.nodes)
    (htype : node.type = .condition) (branchId : String) :
    LeavesBy (WebCore.canonicalEdge (canonicalNodes graph) edge) node branchId ↔
      LeavesBy edge node branchId := by
  unfold LeavesBy
  rw [(canonicalEdge_joins _).2.1]
  refine and_congr_right fun hsource => ?_
  obtain ⟨handle, _, _, hhandle, _, hcondition⟩ := h.canonicalEdge hedge hnode hsource.symm
  rw [hhandle, hcondition htype]

theorem mem_connectedBranches {edges : List WorkflowEdge} {entry : String × String} :
    entry ∈ connectedBranches edges ↔ ∃ edge ∈ edges, ∃ branchId,
      edge.sourceHandle = some ("branch:" ++ branchId) ∧
        (branchKey edge.source branchId, edge.target) = entry := by
  rw [connectedBranches, List.mem_filterMap]
  refine exists_congr fun edge => and_congr_right fun _ => ?_
  cases hhandle : edge.sourceHandle with
  | none => simp
  | some handle =>
    by_cases hstart : startsWith handle "branch:" = true
    · obtain ⟨branchId, rfl⟩ := startsWith_iff.mp hstart
      simp only [Option.filter, hstart, if_true, branchId_of_handle, Option.some.injEq]
      constructor
      · exact fun h => ⟨branchId, rfl, h⟩
      · rintro ⟨branchId', hid, h⟩
        rwa [append_cancel hid]
    · simp only [Option.filter, hstart]
      constructor
      · exact fun h => nomatch h
      · rintro ⟨branchId, hid, _⟩
        exact absurd (startsWith_iff.mpr ⟨branchId, Option.some.inj hid⟩) hstart

/-- The edge under the key of a branch leaves by the branch. -/
theorem Ready.of_key (h : Ready graph) (hedge : edge ∈ canonicalEdges graph)
    (hnode : node ∈ graph.nodes) {branchId branchId' : String}
    (hkey : branchKey node.id branchId ∈ branchKeys node)
    (hhandle : edge.sourceHandle = some ("branch:" ++ branchId'))
    (hsame : branchKey edge.source branchId' = branchKey node.id branchId) :
    LeavesBy edge node branchId := by
  obtain ⟨original, horiginal, rfl⟩ := List.mem_map.mp hedge
  obtain ⟨hid, hsource, htarget⟩ := @canonicalEdge_joins original (canonicalNodes graph)
  obtain ⟨source, hmem, _, _, hsourceId, _⟩ := h.joins original horiginal
  obtain ⟨handle, hin, _, hhandle', _⟩ := h.canonicalEdge horiginal hmem hsourceId
  have hname : handle.id = "branch:" ++ branchId' := Option.some.inj (hhandle'.symm.trans hhandle)
  have htype : source.type = .condition :=
    condition_of_branchHandle hin (hname ▸ startsWith_append _ _)
  have hkey' : branchKey source.id branchId' ∈ branchKeys source :=
    mem_branchKeys.mpr ⟨htype, branchId', rfl, handle, hin, hname⟩
  rw [hsource, ← hsourceId] at hsame
  have hnodeId : source.id = node.id := by
    by_contra hne
    exact h.apart source hmem node hnode hne _ hkey' (hsame ▸ hkey)
  rw [hnodeId] at hsame
  refine ⟨by rw [hsource, ← hsourceId, hnodeId], ?_⟩
  rw [hhandle, branchKey_cancel hsame]

theorem Ready.single_canonical (h : Ready graph) (hnode : node ∈ graph.nodes)
    (htype : node.type = .condition) {branchId : String} {edge' : WorkflowEdge}
    (hedge : edge ∈ canonicalEdges graph) (hedge' : edge' ∈ canonicalEdges graph)
    (hleaves : LeavesBy edge node branchId) (hleaves' : LeavesBy edge' node branchId) :
    edge = edge' := by
  obtain ⟨original, horiginal, rfl⟩ := List.mem_map.mp hedge
  obtain ⟨original', horiginal', rfl⟩ := List.mem_map.mp hedge'
  rw [h.leavesBy horiginal hnode htype] at hleaves
  rw [h.leavesBy horiginal' hnode htype] at hleaves'
  rw [h.single node hnode htype branchId original horiginal original' horiginal' hleaves hleaves']

/-- A branch is connected to the target of the edge that leaves by it. -/
theorem Ready.connected (h : Ready graph) (hnode : node ∈ graph.nodes)
    (htype : node.type = .condition) {branchId : String}
    (hkey : branchKey node.id branchId ∈ branchKeys node) (target : String) :
    connectedBranchById (canonicalEdges graph) (branchKey node.id branchId) = some target ↔
      ∃ edge ∈ canonicalEdges graph, LeavesBy edge node branchId ∧ edge.target = target := by
  have hentry : ∀ entry ∈ connectedBranches (canonicalEdges graph),
      entry.1 = branchKey node.id branchId →
        ∃ edge ∈ canonicalEdges graph, LeavesBy edge node branchId ∧ edge.target = entry.2 := by
    intro entry hmem hsame
    obtain ⟨edge, hedge, branchId', hhandle, rfl⟩ := mem_connectedBranches.mp hmem
    exact ⟨edge, hedge, h.of_key hedge hnode hkey hhandle hsame, rfl⟩
  rw [connectedBranchById, Option.map_eq_some_iff]
  constructor
  · rintro ⟨entry, hfind, rfl⟩
    exact hentry entry (List.mem_reverse.mp (List.mem_of_find?_eq_some hfind))
      (by simpa using List.find?_some hfind)
  · rintro ⟨edge, hedge, hleaves, rfl⟩
    have hmem : (branchKey node.id branchId, edge.target) ∈ connectedBranches (canonicalEdges graph) :=
      mem_connectedBranches.mpr ⟨edge, hedge, branchId, hleaves.2, by rw [hleaves.1]⟩
    have hsome : ((connectedBranches (canonicalEdges graph)).reverse.find?
        fun entry => entry.1 == branchKey node.id branchId).isSome := by
      rw [List.find?_isSome]
      exact ⟨_, List.mem_reverse.mpr hmem, by simp⟩
    obtain ⟨entry, hfind⟩ := Option.isSome_iff_exists.mp hsome
    obtain ⟨edge', hedge', hleaves', htarget⟩ := hentry entry
      (List.mem_reverse.mp (List.mem_of_find?_eq_some hfind)) (by simpa using List.find?_some hfind)
    refine ⟨entry, hfind, ?_⟩
    rw [← htarget, h.single_canonical hnode htype hedge' hedge hleaves' hleaves]

theorem mem_canonicalize_nodes (h : node ∈ (canonicalizeWorkflowAuthoringGraph graph).nodes) :
    ∃ original ∈ graph.nodes, ∃ i,
      node = targetBranches (canonicalEdges graph) (canonicalNode original i) := by
  obtain ⟨node', hnode', rfl⟩ := List.mem_map.mp h
  obtain ⟨original, horiginal, i, rfl⟩ := mem_canonicalNodes hnode'
  exact ⟨original, horiginal, i, rfl⟩

theorem canonicalize_mem_nodes (h : node ∈ graph.nodes) :
    ∃ i, targetBranches (canonicalEdges graph) (canonicalNode node i) ∈
      (canonicalizeWorkflowAuthoringGraph graph).nodes := by
  obtain ⟨i, hi⟩ := canonicalNode_mem h
  exact ⟨i, List.mem_map_of_mem hi⟩

theorem canonicalize_nodeIds : (canonicalizeWorkflowAuthoringGraph graph).nodes.map (·.id) =
    graph.nodes.map (·.id) := by
  rw [canonicalize_nodes, List.map_map, ← canonicalNodes_ids]
  exact List.map_congr_left fun node _ => targetBranches_id _

theorem canonicalize_edgeIds : (canonicalizeWorkflowAuthoringGraph graph).edges.map (·.id) =
    graph.edges.map (·.id) := by
  rw [canonicalize_edges, canonicalEdges, List.map_map]
  exact List.map_congr_left fun edge _ => (canonicalEdge_joins _).1

/-- The branches of a Condition in canonical form. -/
theorem canonical_branch {edges : List WorkflowEdge} {i : ℕ} (htype : node.type = .condition)
    {branch : WorkflowConditionBranch}
    (h : branch ∈ (targetBranches edges (canonicalNode node i)).data.branches.getD []) :
    ∃ branchId, branch.id = some branchId ∧ branchKey node.id branchId ∈ branchKeys node ∧
      branch.targetNodeId =
        if branchId = "" then none else connectedBranchById edges (branchKey node.id branchId) := by
  simp only [targetBranches, canonicalNode, canonicalData, htype, ne_eq, not_true, if_false, if_true,
    Option.getD_some, List.mem_map] at h
  obtain ⟨canonical, ⟨entry, hentry, rfl⟩, rfl⟩ := h
  refine ⟨entry.1.id.getD (defaultBranchId node.id entry.2), rfl, ?_, ?_⟩
  · exact mem_branchKeys.mpr ⟨htype, _, rfl, branchHandle node.id entry.1 entry.2,
      (mem_conditionHandles htype).mpr ⟨entry, hentry, rfl⟩, rfl⟩
  · by_cases hempty : entry.1.id.getD (defaultBranchId node.id entry.2) = ""
    · simp [Option.filter, hempty]
    · simp [Option.filter, hempty]

theorem Ready.canonical_joins (h : Ready graph) (hedge : edge ∈ canonicalEdges graph) :
    Joins (canonicalizeWorkflowAuthoringGraph graph).nodes edge := by
  obtain ⟨original, horiginal, rfl⟩ := List.mem_map.mp hedge
  obtain ⟨_, hsource, htarget⟩ := @canonicalEdge_joins original (canonicalNodes graph)
  obtain ⟨source, hmem, target, hmem', hid, hid', hne, hend, hstart⟩ := h.joins original horiginal
  obtain ⟨i, hi⟩ := canonicalize_mem_nodes hmem
  obtain ⟨j, hj⟩ := canonicalize_mem_nodes hmem'
  exact ⟨_, hi, _, hj, by simp [hid, hsource], by simp [hid', htarget], by simpa using hne,
    by simpa using hend, by simpa using hstart⟩

theorem Ready.wired (h : Ready graph) : Wired (canonicalizeWorkflowAuthoringGraph graph) where
  nodeIds := by
    rw [canonicalize_nodeIds]
    exact h.nodeIds
  edgeIds := by
    rw [canonicalize_edgeIds]
    exact h.edgeIds
  joins _ hedge := h.canonical_joins hedge
  handles edge hedge source hsource hid := by
    obtain ⟨original, horiginal, rfl⟩ := List.mem_map.mp hedge
    obtain ⟨node, hnode, i, rfl⟩ := mem_canonicalize_nodes hsource
    rw [(canonicalEdge_joins _).2.1, targetBranches_id, canonicalNode_id] at hid
    obtain ⟨handle, hhandle, _, hedge, htype, _⟩ := h.canonicalEdge horiginal hnode hid
    exact ⟨handle, by rwa [handles_targetBranches, handles_canonicalNode], hedge, htype⟩
  named node hnode htype branch hbranch := by
    obtain ⟨original, _, i, rfl⟩ := mem_canonicalize_nodes hnode
    rw [targetBranches_type, canonicalNode_type] at htype
    obtain ⟨branchId, hid, _⟩ := canonical_branch htype hbranch
    rw [hid, Option.isSome_some]
  single node hnode htype branchId edge hedge edge' hedge' hleaves hleaves' := by
    obtain ⟨original, horiginal, i, rfl⟩ := mem_canonicalize_nodes hnode
    rw [targetBranches_type, canonicalNode_type] at htype
    rw [LeavesBy, targetBranches_id, canonicalNode_id] at hleaves hleaves'
    exact h.single_canonical horiginal htype hedge hedge' hleaves hleaves'
  targets node hnode htype branch hbranch branchId hid target := by
    obtain ⟨original, horiginal, i, rfl⟩ := mem_canonicalize_nodes hnode
    rw [targetBranches_type, canonicalNode_type] at htype
    obtain ⟨branchId', hid', hkey, htarget⟩ := canonical_branch htype hbranch
    obtain rfl : branchId' = branchId := Option.some.inj (hid'.symm.trans hid)
    simp only [LeavesBy, targetBranches_id, canonicalNode_id, htarget]
    split_ifs with hempty
    · -- no edge leaves by a branch without a name
      constructor
      · exact fun h => nomatch h
      · rintro ⟨edge, hedge, ⟨hsource, hhandle⟩, _⟩
        obtain ⟨first, hfirst, rfl⟩ := List.mem_map.mp hedge
        rw [(canonicalEdge_joins _).2.1] at hsource
        obtain ⟨handle, _, hname, hhandle', _⟩ := h.canonicalEdge hfirst horiginal hsource.symm
        rw [hempty] at hhandle
        exact absurd (Option.some.inj (hhandle'.symm.trans hhandle)) hname
    · exact h.connected horiginal htype hkey target

theorem Ready.canonical (h : Ready graph) : Ready (canonicalizeWorkflowAuthoringGraph graph) where
  nodeIds := h.wired.nodeIds
  edgeIds := h.wired.edgeIds
  joins := h.wired.joins
  fits edge hedge source hsource hid := by
    obtain ⟨original, horiginal, rfl⟩ := List.mem_map.mp hedge
    obtain ⟨node, hnode, i, rfl⟩ := mem_canonicalize_nodes hsource
    rw [(canonicalEdge_joins _).2.1, targetBranches_id, canonicalNode_id] at hid
    obtain ⟨handle, hhandle, hname, hedge, htype, _⟩ := h.canonicalEdge horiginal hnode hid
    rw [← handles_canonicalNode i, ← handles_targetBranches (canonicalEdges graph)] at hhandle
    constructor
    · exact fun _ => ⟨handle, hhandle, hname, hedge⟩
    · exact fun hgate hreject => side_of_handle hgate hhandle (htype.symm.trans hreject)
  single := h.wired.single
  apart node hnode node' hnode' hne := by
    obtain ⟨original, horiginal, i, rfl⟩ := mem_canonicalize_nodes hnode
    obtain ⟨original', horiginal', i', rfl⟩ := mem_canonicalize_nodes hnode'
    have hkeys (node : WorkflowNode) (i : ℕ) :
        branchKeys (targetBranches (canonicalEdges graph) (canonicalNode node i)) = branchKeys node := by
      apply branchKeys_of_handles
      · simp
      · simp
      · rw [handles_targetBranches, handles_canonicalNode]
    rw [hkeys, hkeys]
    exact h.apart original horiginal original' horiginal' (by simpa using hne)

/-- A canonical form that is wired is ready when its branches are apart. -/
theorem Wired.ready (h : Wired (canonicalizeWorkflowAuthoringGraph graph))
    (hapart : Apart (canonicalizeWorkflowAuthoringGraph graph).nodes) :
    Ready (canonicalizeWorkflowAuthoringGraph graph) where
  nodeIds := h.nodeIds
  edgeIds := h.edgeIds
  joins := h.joins
  fits edge hedge source hsource hid := by
    obtain ⟨handle, hhandle, hedgeHandle, htype⟩ := h.handles edge hedge source hsource hid
    constructor
    · intro hcondition
      refine ⟨handle, hhandle, fun hname => ?_, hedgeHandle⟩
      obtain ⟨entry, hentry, hbranchHandle⟩ := (mem_conditionHandles hcondition).mp hhandle
      have hbranch := List.fst_mem_of_mem_zipIdx hentry
      obtain ⟨node, hnode, i, rfl⟩ := mem_canonicalize_nodes hsource
      rw [targetBranches_type, canonicalNode_type] at hcondition
      obtain ⟨branchId, hbranchId, _, htarget⟩ := canonical_branch hcondition hbranch
      have hempty : branchId = "" := by
        rw [← hbranchHandle, branchHandle, hbranchId, Option.getD_some] at hname
        exact append_cancel (hname : "branch:" ++ branchId = "branch:" ++ "")
      have hleaves : LeavesBy edge (targetBranches (canonicalEdges graph) (canonicalNode node i))
          branchId := ⟨hid.symm, by rw [hedgeHandle, hname, hempty]; rfl⟩
      have hconnected := (h.targets _ hsource (by simpa using hcondition) entry.1 hbranch branchId
        hbranchId edge.target).mpr ⟨edge, hedge, hleaves, rfl⟩
      rw [htarget, if_pos hempty] at hconnected
      contradiction
    · exact fun hgate hreject => side_of_handle hgate hhandle (htype.symm.trans hreject)
  single := h.single
  apart := hapart

end Canonical

end VibeKanban.WebCore
