import VibeKanban.Editor.Patch
import VibeKanban.Lib.Machine

/-! The state of an editor session: the draft with its undo and redo history, and the version that the
server holds as far as the session knows. -/
namespace VibeKanban.Editor
open Lib

/-- What a command makes of a graph. -/
structure GraphTransform (G : Type) where
  graph : G
  selectedNodeIds : Option (List String)
  selectedEdgeId : Option (Option String)
  createdNodeId : Option String
  createdEdgeId : Option String

structure WorkflowCommandHistoryEntry (M N E L : Type) where
  label : L
  forward : DraftPatch M N E
  inverse : DraftPatch M N E

structure WorkflowAuthoringState (G M N E L : Type) where
  graph : G
  persistedGraph : G
  clientRevision : ℕ
  serverRevision : ℕ
  dirty : Bool
  undoStack : List (WorkflowCommandHistoryEntry M N E L)
  redoStack : List (WorkflowCommandHistoryEntry M N E L)
  selectedNodeIds : List String
  selectedEdgeId : Option String

structure WorkflowSaveSnapshot (G : Type) where
  graph : G
  clientRevision : ℕ
  expectedRevision : ℕ

/-- The editor of one kind of graph: its parts, its canonical form, its commands with their type and
what they make of a graph, or the issue that they report. -/
structure Authoring (G M N E K L I : Type) where
  parts : GraphParts G M N E
  canonicalize : G → G
  type : K → L
  transformGraph : G → K → Except I (GraphTransform G)

section
variable {G M N E K L I : Type}

abbrev Session (_ : Authoring G M N E K L I) : Type := WorkflowAuthoringState G M N E L

/-- Graphs are compared by their texts. -/
def withGraph [DecidableEq G] (state : WorkflowAuthoringState G M N E L) (graph persistedGraph : G) :
    WorkflowAuthoringState G M N E L :=
  { state with
    graph := graph
    persistedGraph := persistedGraph
    dirty := decide (graph ≠ persistedGraph) }

namespace Authoring
variable (editor : Authoring G M N E K L I)

def createWorkflowAuthoringState (graph : G) (serverRevision : ℕ) : Session editor :=
  ⟨editor.canonicalize graph, editor.canonicalize graph, 0, serverRevision, false, [], [], [], none⟩

/-- The graph that entries lead to. -/
def replay (base : G) (entries : List (WorkflowCommandHistoryEntry M N E L)) : G :=
  entries.foldl (fun graph entry => editor.parts.applyPatch graph entry.forward) base

/-- Each entry of a history can be taken back where it was made. -/
def Reversible (base : G) : List (WorkflowCommandHistoryEntry M N E L) → Prop
  | [] => editor.parts.UniqueIds base
  | entry :: rest =>
    editor.parts.UniqueIds base ∧
      editor.parts.Same (editor.parts.applyPatch (editor.parts.applyPatch base entry.forward)
        entry.inverse) base ∧
      Reversible (editor.parts.applyPatch base entry.forward) rest

/-- The draft is where the undo stack leads from the first graph, and the redo stack leads on. -/
structure Coherent (base : G) (s : Session editor) : Prop where
  graph : editor.parts.Same s.graph (editor.replay base s.undoStack)
  reversible : editor.Reversible base (s.undoStack ++ s.redoStack.reverse)

variable {editor} {base : G} {s : Session editor}

theorem replay_append (before after : List (WorkflowCommandHistoryEntry M N E L)) :
    editor.replay base (before ++ after) = editor.replay (editor.replay base before) after :=
  List.foldl_append

theorem reversible_append {before after : List (WorkflowCommandHistoryEntry M N E L)} :
    editor.Reversible base (before ++ after) ↔
      editor.Reversible base before ∧ editor.Reversible (editor.replay base before) after := by
  induction before generalizing base with
  | nil =>
    constructor
    · intro h
      refine ⟨?_, h⟩
      cases after with
      | nil => exact h
      | cons entry rest => exact h.1
    · exact fun h => h.2
  | cons entry rest ih =>
    simp only [List.cons_append, Reversible, ih, and_assoc]
    rfl

theorem Reversible.unique {entries : List (WorkflowCommandHistoryEntry M N E L)}
    (h : editor.Reversible base entries) : editor.parts.UniqueIds base := by
  cases entries with
  | nil => exact h
  | cons entry rest => exact h.1

theorem Coherent.unique (h : editor.Coherent base s) : editor.parts.UniqueIds s.graph := by
  obtain ⟨_, hrest⟩ := reversible_append.mp h.reversible
  exact hrest.unique.of_same h.graph.symm

theorem replay_unique {entries : List (WorkflowCommandHistoryEntry M N E L)}
    (h : editor.Reversible base entries) : editor.parts.UniqueIds (editor.replay base entries) := by
  have hsplit : editor.Reversible base (entries ++ []) := by rwa [List.append_nil]
  exact (reversible_append.mp hsplit).2

theorem Coherent.same {s' : Session editor} (h : editor.Coherent base s) (hgraph : s'.graph = s.graph)
    (hundo : s'.undoStack = s.undoStack) (hredo : s'.redoStack = s.redoStack) :
    editor.Coherent base s' :=
  ⟨by rw [hgraph, hundo]; exact h.graph, by rw [hundo, hredo]; exact h.reversible⟩

theorem coherent_create {graph : G} (h : editor.parts.UniqueIds (editor.canonicalize graph))
    (serverRevision : ℕ) : editor.Coherent (editor.canonicalize graph)
      (editor.createWorkflowAuthoringState graph serverRevision) :=
  ⟨.refl _, h⟩

end Authoring

variable [DecidableEq G] [DecidableEq M] [DecidableEq N] [DecidableEq E]

namespace Authoring
variable (editor : Authoring G M N E K L I)

/-- The next graph becomes the draft through its difference to the draft, which is recorded. -/
def pushEntry (state : Session editor) (label : L) (nextGraph : G) : Session editor :=
  let forward := editor.parts.diffGraph state.graph nextGraph
  if forward.metadata.isNone && forward.nodes.isEmpty && forward.edges.isEmpty then state
  else
    let graph := editor.parts.applyPatch state.graph forward
    withGraph { state with
      clientRevision := state.clientRevision + 1
      undoStack := state.undoStack ++ [⟨label, forward, GraphParts.invertPatch forward⟩]
      redoStack := [] } graph state.persistedGraph

/-- Nothing changes with an issue; nor do the selections where the graph does not. -/
def dispatchWorkflowAuthoringCommand (state : Session editor) (command : K) : Session editor :=
  match editor.transformGraph state.graph command with
  | .error _ => state
  | .ok transformed =>
    let nextGraph := editor.canonicalize transformed.graph
    let forward := editor.parts.diffGraph state.graph nextGraph
    if forward.metadata.isNone && forward.nodes.isEmpty && forward.edges.isEmpty then state
    else { editor.pushEntry state (editor.type command) nextGraph with
      selectedNodeIds := transformed.selectedNodeIds.getD state.selectedNodeIds
      selectedEdgeId := transformed.selectedEdgeId.getD state.selectedEdgeId }

def commitWorkflowAuthoringGraph (state : Session editor) (graph : G) (label : L) :
    Session editor := editor.pushEntry state label (editor.canonicalize graph)

def undoWorkflowAuthoring (state : Session editor) : Session editor :=
  match state.undoStack.getLast? with
  | none => state
  | some entry =>
    let graph := editor.parts.applyPatch state.graph entry.inverse
    withGraph { state with
      clientRevision := state.clientRevision + 1
      undoStack := state.undoStack.dropLast
      redoStack := state.redoStack ++ [entry]
      selectedNodeIds := state.selectedNodeIds.filter fun id =>
        (editor.parts.nodes graph).any fun node => editor.parts.nodeId node == id
      selectedEdgeId := state.selectedEdgeId.filter fun id =>
        (editor.parts.edges graph).any fun edge => editor.parts.edgeId edge == id }
      graph state.persistedGraph

def redoWorkflowAuthoring (state : Session editor) : Session editor :=
  match state.redoStack.getLast? with
  | none => state
  | some entry =>
    let graph := editor.parts.applyPatch state.graph entry.forward
    withGraph { state with
      clientRevision := state.clientRevision + 1
      undoStack := state.undoStack ++ [entry]
      redoStack := state.redoStack.dropLast } graph state.persistedGraph

def acknowledgeWorkflowSave (state : Session editor) (snapshot : WorkflowSaveSnapshot G)
    (serverRevision : ℕ) : Session editor :=
  if snapshot.expectedRevision ≠ state.serverRevision ∨ serverRevision ≤ state.serverRevision then
    state
  else withGraph { state with serverRevision := serverRevision } state.graph snapshot.graph

/-- Publication changes share the revision but do not save the draft. -/
def acknowledgeWorkflowPublication (state : Session editor) (expectedRevision serverRevision : ℕ) :
    Session editor :=
  if expectedRevision ≠ state.serverRevision ∨ serverRevision ≤ state.serverRevision then state
  else { state with serverRevision := serverRevision }

def acknowledgeLocalWorkflowSave (state : Session editor) (snapshot : WorkflowSaveSnapshot G) :
    Session editor :=
  if snapshot.expectedRevision ≠ state.serverRevision then state
  else withGraph state state.graph snapshot.graph

end Authoring

/-- What changes the draft of a session. -/
inductive DraftEvent (G K L : Type) where
  | dispatch (command : K)
  | commit (graph : G) (label : L)
  | undo
  | redo
  | acknowledgeSave (snapshot : WorkflowSaveSnapshot G) (serverRevision : ℕ)
  | acknowledgePublication (expectedRevision serverRevision : ℕ)
  | acknowledgeLocalSave (snapshot : WorkflowSaveSnapshot G)

namespace Authoring
variable (editor : Authoring G M N E K L I)

def step (state : Session editor) : DraftEvent G K L → Session editor
  | .dispatch command => editor.dispatchWorkflowAuthoringCommand state command
  | .commit graph label => editor.commitWorkflowAuthoringGraph state graph label
  | .undo => editor.undoWorkflowAuthoring state
  | .redo => editor.redoWorkflowAuthoring state
  | .acknowledgeSave snapshot serverRevision =>
    editor.acknowledgeWorkflowSave state snapshot serverRevision
  | .acknowledgePublication expectedRevision serverRevision =>
    editor.acknowledgeWorkflowPublication state expectedRevision serverRevision
  | .acknowledgeLocalSave snapshot => editor.acknowledgeLocalWorkflowSave state snapshot

/-- Runs of a session, whose events meet a condition where they are taken. -/
abbrev DraftRun (ok : Session editor → DraftEvent G K L → Prop) (s : Session editor)
    (events : List (DraftEvent G K L)) (s' : Session editor) : Prop :=
  Run (fun s event => some (editor.step s event)) ok s events s'

variable {editor} {base : G} {s : Session editor}

/-- A new entry is taken where the draft is, and ends what could be redone. -/
theorem Coherent.pushEntry (h : editor.Coherent base s) (label : L) (nextGraph : G) :
    editor.Coherent base (editor.pushEntry s label nextGraph) := by
  unfold Authoring.pushEntry
  simp only
  split_ifs with hnone
  · exact h
  · have hforward := h.graph.applyPatch (editor.parts.diffGraph s.graph nextGraph)
    have hunique := (h.unique.applyPatch nextGraph).of_same hforward
    have hundo : editor.parts.Same (editor.parts.applyPatch (editor.parts.applyPatch
        (editor.replay base s.undoStack) (editor.parts.diffGraph s.graph nextGraph))
          (GraphParts.invertPatch (editor.parts.diffGraph s.graph nextGraph)))
        (editor.replay base s.undoStack) :=
      (hforward.symm.applyPatch _).trans
        ((GraphParts.applyPatch_undo h.unique nextGraph).trans h.graph)
    have hpast := (reversible_append.mp h.reversible).1
    constructor
    · exact (replay_append s.undoStack _).symm ▸ hforward
    · rw [withGraph, List.reverse_nil, List.append_nil]
      exact reversible_append.mpr ⟨hpast, replay_unique hpast, hundo, hunique⟩

theorem Coherent.dispatch (h : editor.Coherent base s) (command : K) :
    editor.Coherent base (editor.dispatchWorkflowAuthoringCommand s command) := by
  unfold dispatchWorkflowAuthoringCommand
  cases editor.transformGraph s.graph command with
  | error issue => exact h
  | ok transformed =>
    simp only
    split_ifs with hnone
    · exact h
    · exact (h.pushEntry (editor.type command) (editor.canonicalize transformed.graph)).same
        rfl rfl rfl

theorem getLast?_split {α : Type} {l : List α} {a : α} (h : l.getLast? = some a) :
    l = l.dropLast ++ [a] := (List.dropLast_append_getLast? a h).symm

omit [DecidableEq M] [DecidableEq N] [DecidableEq E] in
theorem Coherent.undo (h : editor.Coherent base s) :
    editor.Coherent base (editor.undoWorkflowAuthoring s) := by
  unfold undoWorkflowAuthoring
  cases hlast : s.undoStack.getLast? with
  | none => exact h
  | some entry =>
    have hstack := getLast?_split hlast
    have htimeline : s.undoStack ++ s.redoStack.reverse =
        s.undoStack.dropLast ++ entry :: s.redoStack.reverse := by
      conv_lhs => rw [hstack]
      rw [List.append_assoc, List.singleton_append]
    have hreversible := h.reversible
    rw [htimeline] at hreversible
    obtain ⟨_, _, hback, _⟩ := reversible_append.mp hreversible
    have hgraph := h.graph
    rw [hstack, replay_append] at hgraph
    constructor
    · exact (hgraph.applyPatch entry.inverse).trans hback
    · simp only [withGraph, List.reverse_append, List.reverse_singleton, List.singleton_append]
      exact hreversible

omit [DecidableEq M] [DecidableEq N] [DecidableEq E] in
theorem Coherent.redo (h : editor.Coherent base s) :
    editor.Coherent base (editor.redoWorkflowAuthoring s) := by
  unfold redoWorkflowAuthoring
  cases hlast : s.redoStack.getLast? with
  | none => exact h
  | some entry =>
    have hreverse : s.redoStack.reverse = entry :: s.redoStack.dropLast.reverse := by
      conv_lhs => rw [getLast?_split hlast]
      rw [List.reverse_append, List.reverse_singleton, List.singleton_append]
    have hreversible := h.reversible
    rw [hreverse] at hreversible
    constructor
    · simp only [withGraph, replay_append]
      exact h.graph.applyPatch entry.forward
    · simp only [withGraph, List.append_assoc, List.singleton_append]
      exact hreversible

theorem Coherent.step (h : editor.Coherent base s) (event : DraftEvent G K L) :
    editor.Coherent base (editor.step s event) := by
  cases event with
  | dispatch command => exact h.dispatch command
  | commit graph label => exact h.pushEntry label (editor.canonicalize graph)
  | undo => exact h.undo
  | redo => exact h.redo
  | acknowledgeSave snapshot serverRevision =>
    simp only [Authoring.step, acknowledgeWorkflowSave]
    split_ifs with hstale
    · exact h
    · exact h.same rfl rfl rfl
  | acknowledgePublication expectedRevision serverRevision =>
    simp only [Authoring.step, acknowledgeWorkflowPublication]
    split_ifs with hstale
    · exact h
    · exact h.same rfl rfl rfl
  | acknowledgeLocalSave snapshot =>
    simp only [Authoring.step, acknowledgeLocalWorkflowSave]
    split_ifs with hstale
    · exact h
    · exact h.same rfl rfl rfl

omit [DecidableEq M] [DecidableEq N] [DecidableEq E] in
theorem undo_undoStack : (editor.undoWorkflowAuthoring s).undoStack = s.undoStack.dropLast := by
  unfold undoWorkflowAuthoring
  cases hlast : s.undoStack.getLast? with
  | none => simp [List.getLast?_eq_none_iff.mp hlast]
  | some entry => rfl

omit [DecidableEq M] [DecidableEq N] [DecidableEq E] in
theorem redo_undo_undoStack (h : s.undoStack ≠ []) :
    (editor.redoWorkflowAuthoring (editor.undoWorkflowAuthoring s)).undoStack = s.undoStack := by
  cases hlast : s.undoStack.getLast? with
  | none => exact absurd (List.getLast?_eq_none_iff.mp hlast) h
  | some entry =>
    simp only [undoWorkflowAuthoring, hlast, redoWorkflowAuthoring, withGraph,
      List.getLast?_concat]
    exact (getLast?_split hlast).symm

omit [DecidableEq M] [DecidableEq N] [DecidableEq E] in
theorem undo_redo_undoStack (h : s.redoStack ≠ []) :
    (editor.undoWorkflowAuthoring (editor.redoWorkflowAuthoring s)).undoStack = s.undoStack := by
  cases hlast : s.redoStack.getLast? with
  | none => exact absurd (List.getLast?_eq_none_iff.mp hlast) h
  | some entry =>
    rw [undo_undoStack]
    simp only [redoWorkflowAuthoring, hlast, withGraph, List.dropLast_concat]

/-- Undo and redo are exact: the draft is the one that the undo stack determines, undo takes back what
an event pushed, and undo and redo take back each other. -/
structure Exact (base : G) (s : Session editor) : Prop where
  determined : editor.parts.Same s.graph (editor.replay base s.undoStack)
  undo_event : ∀ event entry, (editor.step s event).undoStack = s.undoStack ++ [entry] →
    editor.parts.Same (editor.undoWorkflowAuthoring (editor.step s event)).graph s.graph
  redo_undo : s.undoStack ≠ [] → editor.parts.Same
    (editor.redoWorkflowAuthoring (editor.undoWorkflowAuthoring s)).graph s.graph
  undo_redo : s.redoStack ≠ [] → editor.parts.Same
    (editor.undoWorkflowAuthoring (editor.redoWorkflowAuthoring s)).graph s.graph

theorem Coherent.exact (h : editor.Coherent base s) : Exact base s := by
  have hsame {s' : Session editor} (h' : editor.Coherent base s')
      (hstack : s'.undoStack = s.undoStack) : editor.parts.Same s'.graph s.graph := by
    have hgraph := h'.graph
    rw [hstack] at hgraph
    exact hgraph.trans h.graph.symm
  refine ⟨h.graph, fun event entry hpush => ?_, fun hundo => ?_, fun hredo => ?_⟩
  · apply hsame (h.step event).undo
    rw [undo_undoStack, hpush, List.dropLast_concat]
  · exact hsame h.undo.redo (redo_undo_undoStack hundo)
  · exact hsame h.redo.undo (undo_redo_undoStack hredo)

/-- The flag says whether the texts of the draft and of the version on the server differ. -/
def Flagged (s : Session editor) : Prop := s.dirty = decide (s.graph ≠ s.persistedGraph)

theorem Flagged.pushEntry (h : Flagged s) (label : L) (nextGraph : G) :
    Flagged (editor.pushEntry s label nextGraph) := by
  unfold Authoring.pushEntry
  simp only
  split_ifs with hnone
  · exact h
  · rfl

theorem Flagged.step (h : Flagged s) (event : DraftEvent G K L) : Flagged (editor.step s event) := by
  cases event with
  | dispatch command =>
    simp only [Authoring.step, dispatchWorkflowAuthoringCommand]
    cases editor.transformGraph s.graph command with
    | error issue => exact h
    | ok transformed =>
      simp only
      split_ifs with hnone
      · exact h
      · exact h.pushEntry (editor.type command) (editor.canonicalize transformed.graph)
  | commit graph label => exact h.pushEntry label (editor.canonicalize graph)
  | undo =>
    simp only [Authoring.step, undoWorkflowAuthoring]
    cases s.undoStack.getLast? with
    | none => exact h
    | some entry => rfl
  | redo =>
    simp only [Authoring.step, redoWorkflowAuthoring]
    cases s.redoStack.getLast? with
    | none => exact h
    | some entry => rfl
  | acknowledgeSave snapshot serverRevision =>
    simp only [Authoring.step, acknowledgeWorkflowSave]
    split_ifs with hstale
    · exact h
    · rfl
  | acknowledgePublication expectedRevision serverRevision =>
    simp only [Authoring.step, acknowledgeWorkflowPublication]
    split_ifs with hstale
    · exact h
    · exact h
  | acknowledgeLocalSave snapshot =>
    simp only [Authoring.step, acknowledgeLocalWorkflowSave]
    split_ifs with hstale
    · exact h
    · rfl

end Authoring

end

end VibeKanban.Editor
