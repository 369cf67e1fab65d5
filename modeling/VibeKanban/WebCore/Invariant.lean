import VibeKanban.WebCore.Commands
import VibeKanban.WebCore.Wired

/-! The draft stays wired: what each command does to a graph, and every run of the editor. -/
namespace VibeKanban.WebCore
open Lib Editor

section Members
variable {graph graph' : WorkflowGraph}

theorem Joins.mono {nodes nodes' : List WorkflowNode} {edge : WorkflowEdge} (h : Joins nodes edge)
    (hnodes : nodes ⊆ nodes') : Joins nodes' edge := by
  obtain ⟨source, hsource, target, htarget, hrest⟩ := h
  exact ⟨source, hnodes hsource, target, hnodes htarget, hrest⟩

/-- Only the members of a graph count. -/
theorem Wired.congr (h : Wired graph) (hnodes : ∀ node, node ∈ graph'.nodes ↔ node ∈ graph.nodes)
    (hedges : ∀ edge, edge ∈ graph'.edges ↔ edge ∈ graph.edges)
    (hnodeIds : (graph'.nodes.map (·.id)).Nodup) (hedgeIds : (graph'.edges.map (·.id)).Nodup) :
    Wired graph' where
  nodeIds := hnodeIds
  edgeIds := hedgeIds
  joins edge hedge := (h.joins edge ((hedges edge).mp hedge)).mono fun node => (hnodes node).mpr
  handles edge hedge source hsource :=
    h.handles edge ((hedges edge).mp hedge) source ((hnodes source).mp hsource)
  named node hnode := h.named node ((hnodes node).mp hnode)
  single node hnode htype branchId edge hedge edge' hedge' :=
    h.single node ((hnodes node).mp hnode) htype branchId edge ((hedges edge).mp hedge) edge'
      ((hedges edge').mp hedge')
  targets node hnode htype branch hbranch branchId hid target := by
    rw [h.targets node ((hnodes node).mp hnode) htype branch hbranch branchId hid target]
    exact exists_congr fun edge => and_congr_left fun _ => (hedges edge).symm

theorem Ready.congr (h : Ready graph) (hnodes : ∀ node, node ∈ graph'.nodes ↔ node ∈ graph.nodes)
    (hedges : ∀ edge, edge ∈ graph'.edges ↔ edge ∈ graph.edges)
    (hnodeIds : (graph'.nodes.map (·.id)).Nodup) (hedgeIds : (graph'.edges.map (·.id)).Nodup) :
    Ready graph' where
  nodeIds := hnodeIds
  edgeIds := hedgeIds
  joins edge hedge := (h.joins edge ((hedges edge).mp hedge)).mono fun node => (hnodes node).mpr
  fits edge hedge source hsource :=
    h.fits edge ((hedges edge).mp hedge) source ((hnodes source).mp hsource)
  single node hnode htype branchId edge hedge edge' hedge' :=
    h.single node ((hnodes node).mp hnode) htype branchId edge ((hedges edge).mp hedge) edge'
      ((hedges edge').mp hedge')
  apart node hnode node' hnode' :=
    h.apart node ((hnodes node).mp hnode) node' ((hnodes node').mp hnode')

end Members

section Edits
variable {graph : WorkflowGraph}

/-- The node an edge leaves. -/
theorem Ready.source_mem (h : Ready graph) {edge : WorkflowEdge} (hedge : edge ∈ graph.edges) :
    edge.source ∈ graph.nodes.map (·.id) := by
  obtain ⟨source, hsource, _, _, hid, _⟩ := h.joins edge hedge
  exact hid ▸ List.mem_map_of_mem hsource

/-- The keys of a node's branches are not those of other nodes. -/
def ClearOf (nodes : List WorkflowNode) (node : WorkflowNode) : Prop :=
  ∀ other ∈ nodes, other.id ≠ node.id → ∀ key ∈ branchKeys node, key ∉ branchKeys other

theorem nodup_snoc {α : Type} {l : List α} {a : α} (h : l.Nodup) (ha : a ∉ l) : (l ++ [a]).Nodup := by
  rw [← List.concat_eq_append]
  exact h.concat ha

theorem Ready.filterEdges (h : Ready graph) (keep : WorkflowEdge → Bool) :
    Ready { graph with edges := graph.edges.filter keep } where
  nodeIds := h.nodeIds
  edgeIds := h.edgeIds.sublist (List.filter_sublist.map _)
  joins edge hedge := h.joins edge (List.mem_of_mem_filter hedge)
  fits edge hedge := h.fits edge (List.mem_of_mem_filter hedge)
  single node hnode htype branchId edge hedge edge' hedge' :=
    h.single node hnode htype branchId edge (List.mem_of_mem_filter hedge) edge'
      (List.mem_of_mem_filter hedge')
  apart := h.apart

theorem Ready.addNode (h : Ready graph) {node : WorkflowNode}
    (hfresh : node.id ∉ graph.nodes.map (·.id)) (hclear : ClearOf graph.nodes node) :
    Ready { graph with nodes := graph.nodes ++ [node] } where
  nodeIds := by
    rw [List.map_append]
    exact nodup_snoc h.nodeIds hfresh
  edgeIds := h.edgeIds
  joins edge hedge := (h.joins edge hedge).mono (List.subset_append_left _ _)
  fits edge hedge source hsource hid := by
    rcases List.mem_append.mp hsource with hold | hnew
    · exact h.fits edge hedge source hold hid
    · rw [List.mem_singleton.mp hnew] at hid
      exact absurd (hid ▸ h.source_mem hedge) hfresh
  single other hother htype branchId edge hedge edge' hedge' hleaves hleaves' := by
    rcases List.mem_append.mp hother with hold | hnew
    · exact h.single other hold htype branchId edge hedge edge' hedge' hleaves hleaves'
    · rw [List.mem_singleton.mp hnew] at hleaves
      exact absurd (hleaves.1 ▸ h.source_mem hedge) hfresh
  apart first hfirst second hsecond hne key hkey hkey' := by
    rcases List.mem_append.mp hfirst with hold | hnew
    · rcases List.mem_append.mp hsecond with hold' | hnew'
      · exact h.apart first hold second hold' hne key hkey hkey'
      · rw [List.mem_singleton.mp hnew'] at hkey' hne
        exact hclear first hold hne key hkey' hkey
    · rw [List.mem_singleton.mp hnew] at hkey hne
      rcases List.mem_append.mp hsecond with hold' | hnew'
      · exact hclear second hold' (Ne.symm hne) key hkey hkey'
      · exact hne (List.mem_singleton.mp hnew' ▸ rfl)

theorem Ready.addEdge (h : Ready graph) {edge : WorkflowEdge}
    (hfresh : edge.id ∉ graph.edges.map (·.id)) (hjoins : Joins graph.nodes edge)
    (hfits : ∀ source ∈ graph.nodes, source.id = edge.source → Fits source edge)
    (hfree : ∀ node ∈ graph.nodes, node.type = .condition → ∀ branchId,
      LeavesBy edge node branchId → ∀ other ∈ graph.edges, ¬ LeavesBy other node branchId) :
    Ready { graph with edges := graph.edges ++ [edge] } where
  nodeIds := h.nodeIds
  edgeIds := by
    rw [List.map_append]
    exact nodup_snoc h.edgeIds hfresh
  joins other hother := by
    rcases List.mem_append.mp hother with hold | hnew
    · exact h.joins other hold
    · exact List.mem_singleton.mp hnew ▸ hjoins
  fits other hother := by
    rcases List.mem_append.mp hother with hold | hnew
    · exact h.fits other hold
    · exact List.mem_singleton.mp hnew ▸ hfits
  single node hnode htype branchId first hfirst second hsecond hleaves hleaves' := by
    rcases List.mem_append.mp hfirst with hold | hnew
    · rcases List.mem_append.mp hsecond with hold' | hnew'
      · exact h.single node hnode htype branchId first hold second hold' hleaves hleaves'
      · exact (hfree node hnode htype branchId (List.mem_singleton.mp hnew' ▸ hleaves') first hold
          hleaves).elim
    · rcases List.mem_append.mp hsecond with hold' | hnew'
      · exact (hfree node hnode htype branchId (List.mem_singleton.mp hnew ▸ hleaves) second hold'
          hleaves').elim
      · rw [List.mem_singleton.mp hnew, List.mem_singleton.mp hnew']
  apart := h.apart

/-- Nodes change in place and keep their ids and kinds. -/
theorem Ready.mapNodes (h : Ready graph) {f : WorkflowNode → WorkflowNode}
    (hid : ∀ node, (f node).id = node.id) (htype : ∀ node, (f node).type = node.type)
    (hfits : ∀ edge ∈ graph.edges, ∀ source ∈ graph.nodes, source.id = edge.source →
      Fits source edge → Fits (f source) edge)
    (hapart : Apart (graph.nodes.map f)) :
    Ready { graph with nodes := graph.nodes.map f } where
  nodeIds := by
    rw [List.map_map]
    exact (List.map_congr_left fun node _ => hid node : graph.nodes.map _ = _) ▸ h.nodeIds
  edgeIds := h.edgeIds
  joins edge hedge := by
    obtain ⟨source, hsource, target, htarget, hsourceId, htargetId, hne, hend, hstart⟩ :=
      h.joins edge hedge
    exact ⟨f source, List.mem_map_of_mem hsource, f target, List.mem_map_of_mem htarget,
      by rw [hid, hsourceId], by rw [hid, htargetId], by rwa [hid, hid], by rwa [htype],
      by rwa [htype]⟩
  fits edge hedge source hsource hsourceId := by
    obtain ⟨node, hnode, rfl⟩ := List.mem_map.mp hsource
    rw [hid] at hsourceId
    exact hfits edge hedge node hnode hsourceId (h.fits edge hedge node hnode hsourceId)
  single node hnode hcondition branchId edge hedge edge' hedge' hleaves hleaves' := by
    obtain ⟨original, horiginal, rfl⟩ := List.mem_map.mp hnode
    rw [htype] at hcondition
    rw [LeavesBy, hid] at hleaves hleaves'
    exact h.single original horiginal hcondition branchId edge hedge edge' hedge' hleaves hleaves'
  apart := hapart

theorem Ready.keepNodes (h : Ready graph) {keep : WorkflowNode → Bool}
    (hkeep : ∀ node ∈ graph.nodes, keep node = false →
      ∀ edge ∈ graph.edges, edge.source ≠ node.id ∧ edge.target ≠ node.id) :
    Ready { graph with nodes := graph.nodes.filter keep } where
  nodeIds := h.nodeIds.sublist (List.filter_sublist.map _)
  edgeIds := h.edgeIds
  joins edge hedge := by
    obtain ⟨source, hsource, target, htarget, hid, hid', hrest⟩ := h.joins edge hedge
    have hstays : keep source = true := by
      by_contra hgone
      exact (hkeep source hsource (Bool.eq_false_of_not_eq_true hgone) edge hedge).1 hid.symm
    have hstays' : keep target = true := by
      by_contra hgone
      exact (hkeep target htarget (Bool.eq_false_of_not_eq_true hgone) edge hedge).2 hid'.symm
    exact ⟨source, List.mem_filter.mpr ⟨hsource, hstays⟩, target,
      List.mem_filter.mpr ⟨htarget, hstays'⟩, hid, hid', hrest⟩
  fits edge hedge source hsource := h.fits edge hedge source (List.mem_of_mem_filter hsource)
  single node hnode := h.single node (List.mem_of_mem_filter hnode)
  apart node hnode node' hnode' :=
    h.apart node (List.mem_of_mem_filter hnode) node' (List.mem_of_mem_filter hnode')

/-- Places of nodes do not count. -/
theorem Ready.placeNodes (h : Ready graph) {f : WorkflowNode → WorkflowNode}
    (hf : ∀ node, ∃ place, f node = { node with position := place }) :
    Ready { graph with nodes := graph.nodes.map f } := by
  have hid (node : WorkflowNode) : (f node).id = node.id := by
    obtain ⟨place, hplace⟩ := hf node
    rw [hplace]
  have hkeys (node : WorkflowNode) : branchKeys (f node) = branchKeys node := by
    obtain ⟨place, hplace⟩ := hf node
    rw [hplace]
    rfl
  apply h.mapNodes hid
  · intro node
    obtain ⟨place, hplace⟩ := hf node
    rw [hplace]
  · intro edge _ source _ _ hfits
    obtain ⟨place, hplace⟩ := hf source
    rw [hplace]
    exact ⟨hfits.branch, hfits.side⟩
  · intro node hnode node' hnode' hne
    obtain ⟨original, horiginal, rfl⟩ := List.mem_map.mp hnode
    obtain ⟨original', horiginal', rfl⟩ := List.mem_map.mp hnode'
    rw [hkeys, hkeys]
    exact h.apart original horiginal original' horiginal' (by rwa [hid, hid] at hne)

end Edits

section Connections
variable {graph : WorkflowGraph}

theorem find_id {nodes : List WorkflowNode} {id : String} {node : WorkflowNode}
    (h : nodes.find? (fun node => node.id == id) = some node) : node ∈ nodes ∧ node.id = id :=
  ⟨List.mem_of_find?_eq_some h, by simpa using List.find?_some h⟩

/-- What a valid connection joins. -/
theorem validConnection {connection : Connection}
    (h : validateWorkflowConnection graph connection = none) :
    ∃ source target, graph.nodes.find? (fun node => node.id == connection.source) = some source ∧
      graph.nodes.find? (fun node => node.id == connection.target) = some target ∧
      source.id ≠ target.id ∧ source.type ≠ .end ∧ target.type ≠ .start ∧
      getWorkflowEdgeKindForHandle source connection.sourceHandle ≠ none ∧
      (startsWith connection.sourceHandle "branch:" → ∀ edge ∈ graph.edges,
        some edge.id ≠ connection.ignoredEdgeId → edge.source = source.id →
          edge.sourceHandle ≠ some connection.sourceHandle) := by
  unfold validateWorkflowConnection at h
  cases hsource : graph.nodes.find? (fun node => node.id == connection.source) with
  | none => simp [hsource] at h
  | some source =>
    cases htarget : graph.nodes.find? (fun node => node.id == connection.target) with
    | none => simp [hsource, htarget] at h
    | some target =>
      simp only [hsource, htarget] at h
      split_ifs at h with hself hend hstart hkind
      refine ⟨source, target, rfl, rfl, hself, hend, hstart, hkind, ?_⟩
      intro hbranch edge hedge hignored hleaves hhandle
      split at h
      · exact nomatch h
      · rename_i hnone
        have hfree := List.find?_eq_none.mp hnone edge hedge
        simp [hignored, hleaves, hhandle, hbranch] at hfree

theorem fits_of_kind {source : WorkflowNode} {edge : WorkflowEdge} {handle : String}
    (hkind : getWorkflowEdgeKindForHandle source handle ≠ none)
    (hedge : edge.sourceHandle = some handle) (hname : handle ≠ "branch:")
    (hside : source.type = .humanGate → edge.type = .rejection →
      source.data.requiredAction ≠ some .approve) : Fits source edge := by
  obtain ⟨found, hfound, rfl⟩ := kindForHandle_ne_none.mp hkind
  exact ⟨fun _ => ⟨found, hfound, hname, hedge⟩, hside⟩

/-- An edge of a valid connection is added, where only the edge that the connection ignores is gone. -/
theorem Ready.addConnection (h : Ready graph) {edges : List WorkflowEdge}
    (hrest : Ready { graph with edges := edges }) {connection : Connection}
    (hvalid : validateWorkflowConnection graph connection = none)
    (hedges : ∀ edge ∈ edges, edge ∈ graph.edges ∧ some edge.id ≠ connection.ignoredEdgeId)
    {edge : WorkflowEdge} (hfresh : edge.id ∉ edges.map (·.id))
    (hsource : edge.source = connection.source)
    (hhandle : edge.sourceHandle = some connection.sourceHandle)
    (htarget : edge.target = connection.target) (hname : connection.sourceHandle ≠ "branch:")
    (hside : ∀ source ∈ graph.nodes, source.id = connection.source → source.type = .humanGate →
      edge.type = .rejection → source.data.requiredAction ≠ some .approve) :
    Ready { graph with edges := edges ++ [edge] } := by
  obtain ⟨source, target, hfind, hfind', hne, hend, hstart, hkind, hfree⟩ := validConnection hvalid
  obtain ⟨hmem, hid⟩ := find_id hfind
  obtain ⟨hmem', hid'⟩ := find_id hfind'
  refine hrest.addEdge hfresh ?_ ?_ ?_
  · exact ⟨source, hmem, target, hmem', hid.trans hsource.symm, hid'.trans htarget.symm, hne, hend,
      hstart⟩
  · intro node hnode hnodeId
    obtain rfl : node = source :=
      List.inj_on_of_nodup_map h.nodeIds hnode hmem (hnodeId.trans (hsource.trans hid.symm))
    exact fits_of_kind hkind hhandle hname (hside node hnode hid)
  · intro node hnode htype branchId hleaves other hother hleaves'
    obtain ⟨hold, hignored⟩ := hedges other hother
    have hbranch : connection.sourceHandle = "branch:" ++ branchId :=
      Option.some.inj (hhandle.symm.trans hleaves.2)
    refine hfree (hbranch ▸ startsWith_append _ _) other hold hignored ?_ ?_
    · rw [hleaves'.1, ← hleaves.1, hsource, hid]
    · rw [hleaves'.2, hbranch]

theorem Ready.connect (h : Ready graph) {source sourceHandle target : String}
    {edgeId : Option String} {ids : List String} {transformed : GraphTransform WorkflowGraph}
    (hconnect : connectGraph graph source sourceHandle target edgeId ids = .ok transformed)
    (hfresh : (nextId edgeId ids).1 ∉ graph.edges.map (·.id))
    (hname : sourceHandle = "branch:" →
      validateWorkflowConnection graph ⟨source, sourceHandle, target, none⟩ ≠ none) :
    Ready transformed.graph := by
  unfold connectGraph at hconnect
  cases hvalid : validateWorkflowConnection graph ⟨source, sourceHandle, target, none⟩ with
  | some issue => simp [hvalid] at hconnect
  | none =>
    simp only [hvalid, Except.ok.injEq] at hconnect
    subst hconnect
    refine h.addConnection h hvalid (fun edge hedge => ⟨hedge, by simp⟩) hfresh rfl rfl rfl
      (fun hempty => hname hempty hvalid) ?_
    intro node hnode hnodeId hgate hreject
    have hfind : graph.nodes.find? (fun node => node.id == source) = some node :=
      (find_key_eq_some h.nodeIds).mpr ⟨hnode, hnodeId⟩
    simp only [createWorkflowEdge, hfind, Option.bind_some, Option.getD_some] at hreject
    cases hkind : getWorkflowEdgeKindForHandle node sourceHandle with
    | none =>
      rw [hkind] at hreject
      contradiction
    | some kind =>
      rw [hkind, Option.getD_some] at hreject
      obtain ⟨handle, hhandle, _, hedgeKind⟩ := getWorkflowEdgeKindForHandle_eq_some.mp hkind
      exact side_of_handle hgate hhandle (hedgeKind.trans hreject)

theorem Ready.createConnectedNode (h : Ready graph) {source sourceHandle edgeId : String}
    {node : WorkflowNode} {transformed : GraphTransform WorkflowGraph}
    (hcreate : createConnectedNode graph source sourceHandle node edgeId = .ok transformed)
    (hnode : node.id ∉ graph.nodes.map (·.id)) (hclear : ClearOf graph.nodes node)
    (hfresh : edgeId ∉ graph.edges.map (·.id))
    (hname : sourceHandle = "branch:" →
      validateWorkflowConnection { graph with nodes := graph.nodes ++ [node] }
        ⟨source, sourceHandle, node.id, none⟩ ≠ none) :
    Ready transformed.graph := by
  unfold WebCore.createConnectedNode at hcreate
  cases hconnect : connectGraph { graph with nodes := graph.nodes ++ [node] } source sourceHandle
      node.id (some edgeId) [] with
  | error issue => simp [hconnect] at hcreate
  | ok connected =>
    simp only [hconnect, Except.ok.injEq] at hcreate
    subst hcreate
    have hconnected : Ready connected.graph := (h.addNode hnode hclear).connect hconnect hfresh hname
    exact hconnected

theorem find_edge {edges : List WorkflowEdge} {id : String} {edge : WorkflowEdge}
    (h : edges.find? (fun edge => edge.id == id) = some edge) : edge ∈ edges ∧ edge.id = id :=
  ⟨List.mem_of_find?_eq_some h, by simpa using List.find?_some h⟩

theorem others_ids {edges : List WorkflowEdge} {id : String} :
    id ∉ (edges.filter fun edge => edge.id ≠ id).map (·.id) := by
  intro hmem
  obtain ⟨edge, hedge, hid⟩ := List.mem_map.mp hmem
  have hne := (List.mem_filter.mp hedge).2
  rw [decide_eq_true_eq] at hne
  exact hne hid

/-- An edge in the place of another has the members of one that is added when the other is gone. -/
theorem mem_replaceEdge {edges : List WorkflowEdge} {edge new : WorkflowEdge} (hedge : edge ∈ edges)
    (other : WorkflowEdge) :
    other ∈ edges.map (fun candidate => if candidate.id = edge.id then new else candidate) ↔
      other ∈ (edges.filter fun candidate => candidate.id ≠ edge.id) ++ [new] := by
  rw [List.mem_map, List.mem_append, List.mem_filter, List.mem_singleton]
  constructor
  · rintro ⟨candidate, hcandidate, rfl⟩
    split_ifs with hid
    · exact .inr rfl
    · exact .inl ⟨hcandidate, by simpa using hid⟩
  · rintro (⟨hother, hid⟩ | rfl)
    · exact ⟨other, hother, if_neg (by simpa using hid)⟩
    · exact ⟨edge, hedge, if_pos rfl⟩

theorem Ready.reconnect (h : Ready graph) {edgeId : String} {source sourceHandle target : Option String}
    {transformed : GraphTransform WorkflowGraph}
    (hreconnect : reconnect graph edgeId source sourceHandle target = .ok transformed)
    (hok : ∀ edge ∈ graph.edges, edge.id = edgeId →
      validateWorkflowConnection graph (reconnection edge source sourceHandle target) = none →
      (reconnection edge source sourceHandle target).sourceHandle ≠ "branch:" ∧
      ∀ node ∈ graph.nodes, node.id = (reconnection edge source sourceHandle target).source →
        node.type = .humanGate → edge.type = .rejection →
          node.data.requiredAction ≠ some .approve) :
    Ready transformed.graph := by
  unfold WebCore.reconnect at hreconnect
  cases hfind : graph.edges.find? fun edge => edge.id == edgeId with
  | none => simp [hfind] at hreconnect
  | some edge =>
    obtain ⟨hedge, hid⟩ := find_edge hfind
    cases hvalid : validateWorkflowConnection graph (reconnection edge source sourceHandle target) with
    | some issue => simp [hfind, hvalid] at hreconnect
    | none =>
      obtain ⟨hname, hside⟩ := hok edge hedge hid hvalid
      simp only [hfind, hvalid, Except.ok.injEq] at hreconnect
      subst hreconnect
      have hsame : (graph.edges.map fun candidate => if candidate.id = edge.id then
          reconnectedEdge candidate (reconnection edge source sourceHandle target) else candidate) =
          graph.edges.map fun candidate => if candidate.id = edge.id then
            reconnectedEdge edge (reconnection edge source sourceHandle target) else candidate := by
        refine List.map_congr_left fun candidate hcandidate => ?_
        split_ifs with hcandidateId
        · rw [List.inj_on_of_nodup_map h.edgeIds hcandidate hedge hcandidateId]
        · rfl
      have hids : ((graph.edges.map fun candidate => if candidate.id = edge.id then
          reconnectedEdge edge (reconnection edge source sourceHandle target) else candidate).map
            (·.id)) = graph.edges.map (·.id) := by
        rw [List.map_map]
        refine List.map_congr_left fun candidate _ => ?_
        rw [Function.comp_apply]
        split_ifs with hcandidateId
        · exact hcandidateId.symm
        · rfl
      have hadded := h.addConnection (h.filterEdges fun candidate => candidate.id ≠ edge.id) hvalid
        (fun candidate hcandidate => ?_) (others_ids : (reconnectedEdge edge _).id ∉ _) rfl rfl rfl
        hname hside
      · rw [hsame]
        exact hadded.congr (fun _ => Iff.rfl) (mem_replaceEdge hedge) h.nodeIds (hids ▸ h.edgeIds)
      · have hother := List.mem_filter.mp hcandidate
        exact ⟨hother.1, by simpa [reconnection] using hother.2⟩

theorem not_condition_of_default {node : WorkflowNode}
    (h : getWorkflowEdgeKindForHandle node "default" ≠ none) : node.type ≠ .condition := by
  intro htype
  obtain ⟨handle, hhandle, hname⟩ := kindForHandle_ne_none.mp h
  obtain ⟨branchId, _, hbranch, _⟩ := conditionHandle htype hhandle
  have hstart : startsWith handle.id "branch:" = true := hbranch ▸ startsWith_append _ _
  rw [hname] at hstart
  exact absurd hstart (by decide)

/-- An edge is replaced by one into a node and one from it, which is no Condition. -/
theorem Ready.split (h : Ready graph) {edge : WorkflowEdge} (hedge : edge ∈ graph.edges)
    {node : WorkflowNode} (hnode : node ∈ graph.nodes) (hstart : node.type ≠ .start)
    (hend : node.type ≠ .end) (hcondition : node.type ≠ .condition)
    (hsource : edge.source ≠ node.id) (htarget : edge.target ≠ node.id)
    {firstEdgeId secondEdgeId : String} (hfresh : firstEdgeId ∉ graph.edges.map (·.id))
    (hfresh' : secondEdgeId ∉ graph.edges.map (·.id)) (hne : firstEdgeId ≠ secondEdgeId) :
    Ready { graph with
      edges := graph.edges.filter (fun item => item.id ≠ edge.id) ++
        splitEdges edge node.id firstEdgeId secondEdgeId } := by
  obtain ⟨source, hsourceMem, target, htargetMem, hsourceId, htargetId, _, hsourceEnd, htargetStart⟩ :=
    h.joins edge hedge
  have hkept := List.filter_sublist (p := fun item : WorkflowEdge => item.id ≠ edge.id) (l := graph.edges)
  have hids : ∀ id, id ∉ graph.edges.map (·.id) →
      id ∉ (graph.edges.filter fun item => item.id ≠ edge.id).map (·.id) :=
    fun id hid hmem => hid ((hkept.map (·.id)).subset hmem)
  have hfirst := @Ready.addEdge _ (h.filterEdges fun item => item.id ≠ edge.id)
    (createWorkflowEdge firstEdgeId edge.source edge.sourceHandle node.id (some "input")
      (some edge.type) edge.data) (hids _ hfresh) ?_ ?_ ?_
  · have hsecond := @Ready.addEdge _ hfirst
      (createWorkflowEdge secondEdgeId node.id (some "default") edge.target
        (some (edge.targetHandle.getD "input")) none none) ?_ ?_ ?_ ?_
    · rw [List.append_assoc] at hsecond
      exact hsecond
    · rw [List.map_append, List.mem_append, not_or]
      exact ⟨hids _ hfresh', fun hmem => hne (List.mem_singleton.mp hmem).symm⟩
    · exact ⟨node, hnode, target, htargetMem, rfl, htargetId, fun hsame => htarget (by
        rw [← htargetId, ← hsame]), hend, htargetStart⟩
    · intro other hother hid
      obtain rfl := List.inj_on_of_nodup_map h.nodeIds hother hnode hid
      exact ⟨fun htype => absurd htype hcondition, fun _ hreject => nomatch hreject⟩
    · intro other hother htype branchId hleaves
      obtain rfl := List.inj_on_of_nodup_map h.nodeIds hnode hother hleaves.1
      exact absurd htype hcondition
  · exact ⟨source, hsourceMem, node, hnode, hsourceId, rfl, fun hsame => hsource (by
      rw [← hsourceId, hsame]), hsourceEnd, hstart⟩
  · intro other hother hid
    obtain ⟨hbranch, hside⟩ := h.fits edge hedge other hother hid
    constructor
    · intro htype
      obtain ⟨handle, hhandle, hname, hedgeHandle⟩ := hbranch htype
      exact ⟨handle, hhandle, hname, by rw [createWorkflowEdge, hedgeHandle, Option.getD_some]⟩
    · exact hside
  · intro other hother htype branchId hleaves item hitem hleaves'
    obtain ⟨hold, hid⟩ := List.mem_filter.mp hitem
    obtain ⟨handle, _, _, hedgeHandle⟩ := (h.fits edge hedge other hother hleaves.1.symm).branch htype
    have hedgeLeaves : LeavesBy edge other branchId := by
      refine ⟨hleaves.1, ?_⟩
      have hhandle := hleaves.2
      simp only [createWorkflowEdge, hedgeHandle, Option.getD_some] at hhandle
      rw [hedgeHandle, hhandle]
    rw [h.single other hother htype branchId item hold edge hedge hleaves' hedgeLeaves] at hid
    simp at hid

theorem Ready.splitEdge (h : Ready graph) {edgeId : String} {nodeType : AuthorableKind}
    {position : WorkflowNodePosition} {nodeId : Option String} {ids : List String}
    {transformed : GraphTransform WorkflowGraph}
    (hsplit : splitEdge graph edgeId nodeType position nodeId ids = .ok transformed)
    (hnode : (nextId nodeId ids).1 ∉ graph.nodes.map (·.id))
    (hfirst : (nextId none (nextId nodeId ids).2).1 ∉ graph.edges.map (·.id))
    (hsecond : (nextId none (nextId none (nextId nodeId ids).2).2).1 ∉ graph.edges.map (·.id))
    (hne : (nextId none (nextId nodeId ids).2).1 ≠
      (nextId none (nextId none (nextId nodeId ids).2).2).1)
    (hcondition : nodeType = .condition → ∀ edge ∈ graph.edges, edge.id ≠ edgeId) :
    Ready transformed.graph := by
  unfold WebCore.splitEdge at hsplit
  cases hfind : graph.edges.find? fun edge => edge.id == edgeId with
  | none => simp [hfind] at hsplit
  | some edge =>
    obtain ⟨hedge, hid⟩ := find_edge hfind
    simp only [hfind, Except.ok.injEq] at hsplit
    subst hsplit
    have htype : nodeType ≠ .condition := fun htype => hcondition htype edge hedge hid
    have hadded := @Ready.addNode _ h
      (createWorkflowNode nodeType (nextId nodeId ids).1 none position) hnode ?_
    · refine hadded.split hedge (List.mem_append_right _ (List.mem_singleton_self _)) ?_ ?_ ?_ ?_ ?_
        hfirst hsecond hne
      · cases nodeType <;> exact fun h => nomatch h
      · cases nodeType <;> exact fun h => nomatch h
      · cases nodeType with
        | condition => exact absurd rfl htype
        | agent | humanGate | transform | arena => exact fun h => nomatch h
      · intro hsame
        have hmem := h.source_mem hedge
        rw [hsame] at hmem
        exact hnode hmem
      · intro hsame
        obtain ⟨_, _, target, htarget, _, htargetId, _⟩ := h.joins edge hedge
        have hmem : target.id ∈ graph.nodes.map (·.id) := List.mem_map_of_mem htarget
        rw [htargetId, hsame] at hmem
        exact hnode hmem
    · intro other _ _ key hkey
      obtain ⟨hcondition, _⟩ := mem_branchKeys.mp hkey
      cases nodeType with
      | condition => exact absurd rfl htype
      | agent | humanGate | transform | arena => exact nomatch hcondition

theorem Ready.splitEdgeWithNode (h : Ready graph) {edgeId nodeId : String}
    {position : WorkflowNodePosition} {firstEdgeId secondEdgeId : Option String} {ids : List String}
    {transformed : GraphTransform WorkflowGraph}
    (hsplit : splitEdgeWithNode graph edgeId nodeId position firstEdgeId secondEdgeId ids =
      .ok transformed)
    (hfirst : (nextId firstEdgeId ids).1 ∉ graph.edges.map (·.id))
    (hsecond : (nextId secondEdgeId (nextId firstEdgeId ids).2).1 ∉ graph.edges.map (·.id))
    (hne : (nextId firstEdgeId ids).1 ≠ (nextId secondEdgeId (nextId firstEdgeId ids).2).1) :
    Ready transformed.graph := by
  unfold WebCore.splitEdgeWithNode at hsplit
  cases hfind : graph.edges.find? fun edge => edge.id == edgeId with
  | none => simp [hfind] at hsplit
  | some edge =>
    cases hfindNode : graph.nodes.find? fun node => node.id == nodeId with
    | none => simp [hfind, hfindNode] at hsplit
    | some node =>
      obtain ⟨hedge, hid⟩ := find_edge hfind
      obtain ⟨hnode, hnodeId⟩ := find_id hfindNode
      simp only [hfind, hfindNode] at hsplit
      split_ifs at hsplit with hmissing
      push Not at hmissing
      obtain ⟨hstart, hend, hsource, htarget⟩ := hmissing
      split at hsplit
      · exact nomatch hsplit
      · rename_i hvalid
        simp only [Except.ok.injEq] at hsplit
        subst hsplit
        obtain ⟨_, hvalid⟩ := Option.or_eq_none_iff.mp hvalid
        obtain ⟨found, _, hfound, _, _, _, _, hkind, _⟩ := validConnection hvalid
        obtain rfl : found = node := by
          obtain ⟨hmem, hsame⟩ := find_id hfound
          exact List.inj_on_of_nodup_map h.nodeIds hmem hnode hsame
        have hcondition := not_condition_of_default hkind
        have hsplit := h.split hedge hnode hstart hend hcondition hsource htarget hfirst hsecond hne
        apply hsplit.placeNodes
        intro candidate
        split_ifs
        · exact ⟨some position, rfl⟩
        · exact ⟨candidate.position, rfl⟩

theorem Ready.moveNodes (h : Ready graph) (positions : List (String × WorkflowNodePosition)) :
    Ready (moveNodes graph positions).graph := by
  apply h.placeNodes
  intro node
  split
  · exact ⟨_, rfl⟩
  · exact ⟨node.position, rfl⟩

theorem Ready.deleteNodes (h : Ready graph) (nodeIds : List String) :
    Ready (deleteNodes graph nodeIds).graph := by
  apply (h.filterEdges _).keepNodes
  intro node _ hgone edge hedge
  have hdeleted : node.id ∈ deletable graph nodeIds := by simpa using hgone
  have hkept := (List.mem_filter.mp hedge).2
  simp only [Bool.and_eq_true, decide_eq_true_eq] at hkept
  exact ⟨fun hsource => hkept.1 (hsource ▸ hdeleted), fun htarget => hkept.2 (htarget ▸ hdeleted)⟩

end Connections

section Configuration
variable {graph : WorkflowGraph} {node : WorkflowNode} {patch : NodeDataPatch}

/-- Retained edges of a Condition leave by given branches. -/
theorem retained_branch {edges : List WorkflowEdge} {edge : WorkflowEdge}
    (hedge : edge ∈ retainedEdges node patch edges) (htype : node.type = .condition)
    {branches : List WorkflowConditionBranch} (hpatch : patch.branches = some (some branches))
    (hsource : edge.source = node.id) {branchId : String}
    (hhandle : edge.sourceHandle = some ("branch:" ++ branchId)) :
    ∃ branch ∈ branches, branch.id = some branchId := by
  have hstart := startsWith_append "branch:" branchId
  simp only [retainedEdges, htype, hpatch, reduceCtorEq, false_and, if_false, List.mem_filter,
    hsource, ne_eq, not_true, decide_false, Bool.false_or, hhandle, Option.filter_some, hstart, if_true,
    Option.all_some, decide_eq_true_eq, List.mem_map, List.mem_filterMap] at hedge
  obtain ⟨_, branchId', ⟨branch, hbranch, hid⟩, hsame⟩ := hedge
  obtain rfl := append_cancel hsame
  exact ⟨branch, hbranch, (Option.filter_eq_some_iff.mp hid).1⟩

theorem retained_side {edges : List WorkflowEdge} {edge : WorkflowEdge}
    (hedge : edge ∈ retainedEdges node patch edges) (htype : node.type = .humanGate)
    (hpatch : patch.requiredAction = some (some .approve)) (hsource : edge.source = node.id) :
    edge.type ≠ .rejection := by
  simp only [retainedEdges, htype, hpatch, and_self, if_true, List.mem_filter, hsource, ne_eq,
    not_true, decide_false, Bool.false_or, Bool.and_eq_true, decide_eq_true_eq] at hedge
  exact hedge.2.2

theorem retained_filter (edges : List WorkflowEdge) :
    ∃ keep, retainedEdges node patch edges = edges.filter keep := by
  unfold retainedEdges
  split
  · split_ifs
    · exact ⟨_, List.filter_filter⟩
    · exact ⟨_, rfl⟩
  · split_ifs
    · exact ⟨_, rfl⟩
    · exact ⟨fun _ => true, by simp⟩

/-- Retained edges fit the node with its new data. -/
theorem retained_fits {edges : List WorkflowEdge} {edge : WorkflowEdge}
    (hedge : edge ∈ retainedEdges node patch edges) (hsource : edge.source = node.id)
    (hfits : Fits node edge) (hbranches : node.type = .condition → patch.branches ≠ some none) :
    Fits { node with data := node.data.patch patch } edge := by
  constructor
  · intro (htype : node.type = .condition)
    obtain ⟨handle, hhandle, hname, hedgeHandle⟩ := hfits.branch htype
    have hpatched := @mem_conditionHandles { node with data := node.data.patch patch } htype
    cases hpatch : patch.branches with
    | none =>
      refine ⟨handle, hpatched.mpr ?_, hname, hedgeHandle⟩
      simpa [WorkflowNodeData.patch, hpatch] using (mem_conditionHandles htype).mp hhandle
    | some given =>
      cases given with
      | none => exact absurd hpatch (hbranches htype)
      | some branches =>
        obtain ⟨branchId, _, hid, _⟩ := conditionHandle htype hhandle
        rw [hid] at hname hedgeHandle
        obtain ⟨branch, hbranch, hbranchId⟩ := retained_branch hedge htype hpatch hsource hedgeHandle
        obtain ⟨i, hi, rfl⟩ := List.mem_iff_getElem.mp hbranch
        refine ⟨branchHandle node.id branches[i] i, ?_, ?_, ?_⟩
        · refine hpatched.mpr ⟨(branches[i], i), ?_, rfl⟩
          simp only [WorkflowNodeData.patch, hpatch, Option.getD_some]
          exact List.mk_mem_zipIdx_iff_getElem?.mpr (List.getElem?_eq_getElem hi)
        · simpa [branchHandle, hbranchId] using hname
        · simpa [branchHandle, hbranchId] using hedgeHandle
  · intro htype hreject
    cases hpatch : patch.requiredAction with
    | none =>
      have hside := hfits.side htype hreject
      simpa [WorkflowNodeData.patch, hpatch] using hside
    | some given =>
      intro happrove
      simp only [WorkflowNodeData.patch, hpatch, Option.getD_some] at happrove
      rw [happrove] at hpatch
      exact retained_side hedge htype hpatch hsource hreject

theorem Ready.configureNode (h : Ready graph) {nodeId : String}
    {transformed : GraphTransform WorkflowGraph}
    (hconfigure : configureNode graph nodeId patch = .ok transformed)
    (hok : ∀ node ∈ graph.nodes, node.id = nodeId →
      ClearOf graph.nodes { node with data := node.data.patch patch } ∧
        (node.type = .condition → patch.branches = some none →
          ∀ edge ∈ graph.edges, edge.source ≠ nodeId)) :
    Ready transformed.graph := by
  unfold WebCore.configureNode at hconfigure
  cases hfind : graph.nodes.find? fun node => node.id == nodeId with
  | none => simp [hfind] at hconfigure
  | some node =>
    obtain ⟨hnode, rfl⟩ := find_id hfind
    obtain ⟨hclear, hbranches⟩ := hok node hnode rfl
    simp only [hfind, Except.ok.injEq] at hconfigure
    subst hconfigure
    obtain ⟨keep, hkeep⟩ := @retained_filter node patch graph.edges
    have hretained := h.filterEdges keep
    rw [← hkeep] at hretained
    have hconfigured {other : WorkflowNode} (hother : other ∈ graph.nodes) (hid : other.id = node.id) :
        other = node := List.inj_on_of_nodup_map h.nodeIds hother hnode hid
    apply hretained.mapNodes
    · intro other
      split_ifs <;> rfl
    · intro other
      split_ifs <;> rfl
    · intro edge hedge source hsource hid hfits
      split_ifs with hsame
      · obtain rfl := hconfigured hsource hsame
        refine retained_fits hedge hid.symm hfits fun htype hpatch => ?_
        have hold : edge ∈ graph.edges := List.mem_of_mem_filter (hkeep ▸ hedge)
        exact hbranches htype hpatch edge hold hid.symm
      · exact hfits
    · intro first hfirst second hsecond hne key hkey hkey'
      obtain ⟨original, horiginal, rfl⟩ := List.mem_map.mp hfirst
      obtain ⟨original', horiginal', rfl⟩ := List.mem_map.mp hsecond
      split_ifs at hkey hkey' hne with hsame hsame'
      · exact hne (hsame.trans hsame'.symm)
      · obtain rfl := hconfigured horiginal hsame
        exact hclear original' horiginal' hsame' key hkey hkey'
      · rename_i hsame'
        obtain rfl := hconfigured horiginal' hsame'
        exact hclear original horiginal hsame key hkey' hkey
      · exact h.apart original horiginal original' horiginal' hne key hkey hkey'

end Configuration

end VibeKanban.WebCore
