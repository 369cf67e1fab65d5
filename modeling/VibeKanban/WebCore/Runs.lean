import VibeKanban.Editor.Timeline
import VibeKanban.WebCore.Invariant

/-! The draft of an editor stays wired in every run whose commands keep to the handles of nodes. -/
namespace VibeKanban.WebCore
open Lib Editor

/-- The ids of the nodes and of the edges that a command brings into a graph. -/
def WorkflowAuthoringCommand.newIds (ids : List String) :
    WorkflowAuthoringCommand → List String × List String
  | .createNode _ _ nodeId _ => ([(nextId nodeId ids).1], [])
  | .connect _ _ _ edgeId => ([], [(nextId edgeId ids).1])
  | .createConnectedNode _ _ _ _ nodeId edgeId _ =>
    let (nodeId, ids) := nextId nodeId ids
    ([nodeId], [(nextId edgeId ids).1])
  | .splitEdge _ _ _ nodeId =>
    let (nodeId, ids) := nextId nodeId ids
    let (firstEdgeId, ids) := nextId none ids
    ([nodeId], [firstEdgeId, (nextId none ids).1])
  | .splitEdgeWithNode _ _ _ firstEdgeId secondEdgeId =>
    let (firstEdgeId, ids) := nextId firstEdgeId ids
    ([], [firstEdgeId, (nextId secondEdgeId ids).1])
  | .duplicateNode _ duplicateId _ _ => ([(nextId duplicateId ids).1], [])
  | .configureNode .. | .moveNodes .. | .reconnect .. | .deleteEdge .. | .deleteNodes .. => ([], [])

/-- The new ids are those of no node and no edge. -/
structure Fresh (graph : WorkflowGraph) (command : WorkflowAuthoringCommand) (ids : List String) :
    Prop where
  nodes : ∀ id ∈ (command.newIds ids).1, id ∉ graph.nodes.map (·.id)
  edges : ∀ id ∈ (command.newIds ids).2, id ∉ graph.edges.map (·.id)
  distinct : (command.newIds ids).2.Nodup

/-- A command that leaves no edge without a handle: no Condition splits an edge, none loses its branches
to an undefined value, no branch without a name is connected, no rejection is taken to a gate that only
approves, and the branches that a node gets have keys of their own. -/
def KeepsHandles (graph : WorkflowGraph) (ids : List String) : WorkflowAuthoringCommand → Prop
  | .createNode nodeType position nodeId data =>
    ClearOf graph.nodes (createWorkflowNode nodeType (nextId nodeId ids).1 data position)
  | .configureNode nodeId patch => ∀ node ∈ graph.nodes, node.id = nodeId →
    ClearOf graph.nodes { node with data := node.data.patch patch } ∧
      (node.type = .condition → patch.branches = some none →
        ∀ edge ∈ graph.edges, edge.source ≠ nodeId)
  | .connect source sourceHandle target _ => sourceHandle = "branch:" →
    validateWorkflowConnection graph ⟨source, sourceHandle, target, none⟩ ≠ none
  | .createConnectedNode source sourceHandle nodeType position nodeId _ data =>
    let node := createWorkflowNode nodeType (nextId nodeId ids).1 data position
    ClearOf graph.nodes node ∧ (sourceHandle = "branch:" →
      validateWorkflowConnection { graph with nodes := graph.nodes ++ [node] }
        ⟨source, sourceHandle, node.id, none⟩ ≠ none)
  | .reconnect edgeId source sourceHandle target => ∀ edge ∈ graph.edges, edge.id = edgeId →
    let connection := reconnection edge source sourceHandle target
    validateWorkflowConnection graph connection = none → connection.sourceHandle ≠ "branch:" ∧
      ∀ node ∈ graph.nodes, node.id = connection.source → node.type = .humanGate →
        edge.type = .rejection → node.data.requiredAction ≠ some .approve
  | .splitEdge edgeId nodeType _ _ =>
    nodeType = .condition → ∀ edge ∈ graph.edges, edge.id ≠ edgeId
  | .duplicateNode nodeId duplicateId position data => ∀ node ∈ graph.nodes, node.id = nodeId →
    ClearOf graph.nodes (duplicate node (nextId duplicateId ids).1 position data)
  | .moveNodes _ | .splitEdgeWithNode .. | .deleteEdge _ | .deleteNodes _ => True

variable {graph : WorkflowGraph}

theorem Ready.transformGraph (h : Ready graph) {command : WorkflowAuthoringCommand}
    {ids : List String} {transformed : GraphTransform WorkflowGraph}
    (htransform : transformGraph graph command ids = .ok transformed)
    (hfresh : Fresh graph command ids) (hkeeps : KeepsHandles graph ids command) :
    Ready transformed.graph := by
  obtain ⟨hnodes, hedges, hdistinct⟩ := hfresh
  cases command with
  | createNode nodeType position nodeId data =>
    obtain rfl := Except.ok.inj htransform
    exact h.addNode (hnodes _ (List.mem_singleton_self _)) hkeeps
  | configureNode nodeId patch => exact h.configureNode htransform hkeeps
  | moveNodes positions =>
    obtain rfl := Except.ok.inj htransform
    exact h.moveNodes positions
  | connect source sourceHandle target edgeId =>
    exact h.connect htransform (hedges _ (List.mem_singleton_self _)) hkeeps
  | createConnectedNode source sourceHandle nodeType position nodeId edgeId data =>
    obtain ⟨hclear, hname⟩ := hkeeps
    exact h.createConnectedNode htransform (hnodes _ (List.mem_singleton_self _)) hclear
      (hedges _ (List.mem_singleton_self _)) hname
  | reconnect edgeId source sourceHandle target => exact h.reconnect htransform hkeeps
  | splitEdge edgeId nodeType position nodeId =>
    exact h.splitEdge htransform (hnodes _ (List.mem_singleton_self _))
      (hedges _ List.mem_cons_self) (hedges _ (List.mem_cons_of_mem _ (List.mem_singleton_self _)))
      (fun hsame => (List.nodup_cons.mp hdistinct).1 (List.mem_singleton.mpr hsame)) hkeeps
  | splitEdgeWithNode edgeId nodeId position firstEdgeId secondEdgeId =>
    exact h.splitEdgeWithNode htransform (hedges _ List.mem_cons_self)
      (hedges _ (List.mem_cons_of_mem _ (List.mem_singleton_self _)))
      (fun hsame => (List.nodup_cons.mp hdistinct).1 (List.mem_singleton.mpr hsame))
  | deleteEdge edgeId =>
    obtain rfl := Except.ok.inj htransform
    exact h.filterEdges _
  | deleteNodes nodeIds =>
    obtain rfl := Except.ok.inj htransform
    exact h.deleteNodes nodeIds
  | duplicateNode nodeId duplicateId position data =>
    simp only [WebCore.transformGraph] at htransform
    cases hfind : graph.nodes.find? fun node => node.id == nodeId with
    | none => simp [hfind] at htransform
    | some original =>
      obtain ⟨hmem, hid⟩ := find_id hfind
      simp only [hfind] at htransform
      split_ifs at htransform with hkind
      obtain rfl := Except.ok.inj htransform
      exact h.addNode (hnodes _ (List.mem_singleton_self _)) (hkeeps original hmem hid)

/-- A wired draft whose branches are apart and named. -/
def Settled (graph : WorkflowGraph) : Prop := Wired graph ∧ Ready graph

theorem settled_canonicalize (h : Ready graph) : Settled (canonicalizeWorkflowAuthoringGraph graph) :=
  ⟨h.wired, h.canonical⟩

theorem Settled.same {graph' : WorkflowGraph} (hsame : graphParts.Same graph graph')
    (h : Settled graph) : Settled graph' := by
  have hnodes : graph.nodes = graph'.nodes := hsame.nodes
  have hedges : graph.edges = graph'.edges := hsame.edges
  have hnodeIds := h.1.nodeIds
  have hedgeIds := h.1.edgeIds
  rw [hnodes] at hnodeIds
  rw [hedges] at hedgeIds
  exact ⟨h.1.congr (fun _ => by rw [hnodes]) (fun _ => by rw [hedges]) hnodeIds hedgeIds,
    h.2.congr (fun _ => by rw [hnodes]) (fun _ => by rw [hedges]) hnodeIds hedgeIds⟩

/-- A difference leads to a draft with the members of the other graph. -/
theorem Settled.applyPatch {next : WorkflowGraph} (hnext : Settled next) (h : Settled graph) :
    Settled (graphParts.applyPatch graph (graphParts.diffGraph graph next)) := by
  have hunique : graphParts.UniqueIds graph := ⟨h.1.nodeIds, h.1.edgeIds⟩
  have hpatched := hunique.applyPatch next
  have hnodes (node : WorkflowNode) : node ∈ (graphParts.applyPatch graph
      (graphParts.diffGraph graph next)).nodes ↔ node ∈ next.nodes :=
    mem_applyEntityPatch h.1.nodeIds hnext.1.nodeIds
  have hedges (edge : WorkflowEdge) : edge ∈ (graphParts.applyPatch graph
      (graphParts.diffGraph graph next)).edges ↔ edge ∈ next.edges :=
    mem_applyEntityPatch h.1.edgeIds hnext.1.edgeIds
  exact ⟨hnext.1.congr hnodes hedges hpatched.nodes hpatched.edges,
    hnext.2.congr hnodes hedges hpatched.nodes hpatched.edges⟩

/-- Events of a session: commands with fresh ids, undo and redo, and what the server acknowledges. -/
def FreshEvent (s : Session workflowEditor) :
    DraftEvent WorkflowGraph (WorkflowAuthoringCommand × List String) CommandType → Prop
  | .dispatch command => Fresh s.graph command.1 command.2
  | .commit _ _ => False
  | _ => True

/-- Commands with fresh ids that keep edges on handles. -/
def KeepingEvent (s : Session workflowEditor)
    (event : DraftEvent WorkflowGraph (WorkflowAuthoringCommand × List String) CommandType) : Prop :=
  FreshEvent s event ∧ ∀ command, event = .dispatch command → KeepsHandles s.graph command.2 command.1

/-- In every run of commands that keep edges on handles, undo and redo, the draft is wired. -/
theorem draft_wired {revision : ℕ}
    {events : List (DraftEvent WorkflowGraph (WorkflowAuthoringCommand × List String) CommandType)}
    {s : Session workflowEditor} (hwired : Wired (canonicalizeWorkflowAuthoringGraph graph))
    (hapart : Apart (canonicalizeWorkflowAuthoringGraph graph).nodes)
    (hrun : workflowEditor.DraftRun KeepingEvent
      (workflowEditor.createWorkflowAuthoringState graph revision) events s) :
    Wired s.graph := by
  have hsettled : Settled (canonicalizeWorkflowAuthoringGraph graph) := ⟨hwired, hwired.ready hapart⟩
  have hcoherent : workflowEditor.Coherent (canonicalizeWorkflowAuthoringGraph graph)
      (workflowEditor.createWorkflowAuthoringState graph revision) :=
    Authoring.coherent_create ⟨hwired.nodeIds, hwired.edgeIds⟩ revision
  have hdraft : Settled s.graph := by
    refine Authoring.DraftRun.keeps (fun _ _ => Settled.same) hrun hcoherent hsettled ?_
    intro state event next hok hstate hnext
    obtain ⟨hfresh, hkeeps⟩ := hok
    cases event with
    | dispatch command =>
      cases htransform : transformGraph state.graph command.1 command.2 with
      | error issue => simp [Authoring.nextGraph, workflowEditor, htransform] at hnext
      | ok transformed =>
        have hready := hstate.2.transformGraph htransform hfresh (hkeeps command rfl)
        have hcanonical : canonicalizeWorkflowAuthoringGraph transformed.graph = next := by
          simpa [Authoring.nextGraph, workflowEditor, htransform] using hnext
        exact (hcanonical ▸ settled_canonicalize hready).applyPatch hstate
    | commit graph label => exact hfresh.elim
    | undo | redo | acknowledgeSave | acknowledgePublication | acknowledgeLocalSave =>
      cases hnext
  exact hdraft.1

section Straight

/-- An edge from Start to End. -/
def straightGraph : WorkflowGraph :=
  ⟨2, [⟨"start", .start, ⟨none, none, none, []⟩, some ⟨120, 160⟩⟩,
      ⟨"end", .end, ⟨none, none, none, []⟩, some ⟨420, 160⟩⟩],
    [⟨"edge-1", "start", some "default", "end", some "input", .default, none⟩], none, none⟩

theorem ready_straight : Ready straightGraph where
  nodeIds := by decide
  edgeIds := by decide
  joins := by
    intro edge hedge
    obtain rfl := List.mem_singleton.mp hedge
    exact ⟨_, List.mem_cons_self, _, List.mem_cons_of_mem _ List.mem_cons_self, rfl, rfl, by decide,
      by decide, by decide⟩
  fits := by
    intro edge _ source hsource _
    have htypes : ∀ node ∈ straightGraph.nodes, node.type ≠ .condition ∧ node.type ≠ .humanGate := by
      decide
    obtain ⟨hcondition, hgate⟩ := htypes source hsource
    exact ⟨fun htype => absurd htype hcondition, fun htype => absurd htype hgate⟩
  single := by
    intro _ _ _ _ edge hedge edge' hedge' _ _
    rw [List.mem_singleton.mp hedge, List.mem_singleton.mp hedge']
  apart := by
    unfold Apart
    decide

/-- A new node splits the edge. -/
def splitStraight (nodeType : AuthorableKind) : WorkflowAuthoringCommand × List String :=
  (.splitEdge "edge-1" nodeType ⟨270, 160⟩ (some "node-1"), ["edge-2", "edge-3"])

theorem fresh_splitStraight (nodeType : AuthorableKind) :
    Fresh (workflowEditor.createWorkflowAuthoringState straightGraph 0).graph
      (splitStraight nodeType).1 (splitStraight nodeType).2 where
  nodes := by cases nodeType <;> decide
  edges := by cases nodeType <;> decide
  distinct := by cases nodeType <;> decide

theorem keeping_splitStraight : KeepingEvent (workflowEditor.createWorkflowAuthoringState straightGraph 0)
    (.dispatch (splitStraight .agent)) := by
  refine ⟨fresh_splitStraight .agent, fun command hcommand => ?_⟩
  obtain rfl := DraftEvent.dispatch.inj hcommand
  exact fun h => nomatch h

theorem keeping_deleteNodes (s : Session workflowEditor) (nodeIds : List String) :
    KeepingEvent s (.dispatch (.deleteNodes nodeIds, [])) := by
  constructor
  · exact ⟨fun _ h => absurd h List.not_mem_nil, fun _ h => absurd h List.not_mem_nil, List.nodup_nil⟩
  · intro command hcommand
    obtain rfl := DraftEvent.dispatch.inj hcommand
    trivial

theorem keeping_undo (s : Session workflowEditor) : KeepingEvent s .undo :=
  ⟨trivial, fun _ h => by cases h⟩

theorem keeping_redo (s : Session workflowEditor) : KeepingEvent s .redo :=
  ⟨trivial, fun _ h => by cases h⟩

/-- The node that splits the edge is deleted, and both commands are undone before the first is done
again. -/
theorem draft_wired_redone : ∃ s,
    workflowEditor.DraftRun KeepingEvent (workflowEditor.createWorkflowAuthoringState straightGraph 0)
      [.dispatch (splitStraight .agent), .dispatch (.deleteNodes ["node-1"], []), .undo, .undo, .redo] s ∧
    s.graph.edges.map (fun edge => (edge.source, edge.target)) =
      [("start", "node-1"), ("node-1", "end")] ∧
    Wired s.graph := by
  have hrun : workflowEditor.DraftRun KeepingEvent
      (workflowEditor.createWorkflowAuthoringState straightGraph 0)
      [.dispatch (splitStraight .agent), .dispatch (.deleteNodes ["node-1"], []), .undo, .undo, .redo] _ :=
    .cons keeping_splitStraight rfl (.cons (keeping_deleteNodes _ _) rfl (.cons (keeping_undo _) rfl
      (.cons (keeping_undo _) rfl (.cons (keeping_redo _) rfl (.nil _)))))
  refine ⟨_, hrun, by decide +kernel, ?_⟩
  exact draft_wired ready_straight.wired ready_straight.canonical.apart hrun

/-- A Condition that splits an edge has no branch for the edge that leaves it. -/
theorem condition_splits :
    ¬ ∀ graph, Wired (canonicalizeWorkflowAuthoringGraph graph) → ∀ revision events s,
      workflowEditor.DraftRun FreshEvent (workflowEditor.createWorkflowAuthoringState graph revision)
        events s → Wired s.graph := by
  intro hall
  have hwired := hall straightGraph ready_straight.wired 0
    [.dispatch (splitStraight .condition)] _
    (.cons (fresh_splitStraight .condition) rfl (.nil _))
  have hhandles := hwired.handles
  revert hhandles
  decide

end Straight

end VibeKanban.WebCore
