import VibeKanban.Editor.History

/-! Properties of graphs that hold wherever the history of a session leads. -/
namespace VibeKanban.Editor.Authoring
open Lib

variable {G M N E K L I : Type} (editor : Authoring G M N E K L I)

/-- Every graph that entries lead through has a property. -/
def Throughout (P : G → Prop) (base : G) : List (WorkflowCommandHistoryEntry M N E L) → Prop
  | [] => P base
  | entry :: rest => P base ∧ Throughout P (editor.parts.applyPatch base entry.forward) rest

/-- The entries that were made and those that were undone, in their order. -/
def timeline (s : Session editor) : List (WorkflowCommandHistoryEntry M N E L) :=
  s.undoStack ++ s.redoStack.reverse

/-- The graph that an event makes the draft. -/
def nextGraph (s : Session editor) : DraftEvent G K L → Option G
  | .dispatch command =>
    match editor.transformGraph s.graph command with
    | .error _ => none
    | .ok transformed => some (editor.canonicalize transformed.graph)
  | .commit graph _ => some (editor.canonicalize graph)
  | _ => none

variable {editor} {P : G → Prop} {base : G} {s : Session editor}

theorem throughout_append {before after : List (WorkflowCommandHistoryEntry M N E L)} :
    editor.Throughout P base (before ++ after) ↔ editor.Throughout P base before ∧
      editor.Throughout P (editor.replay base before) after := by
  induction before generalizing base with
  | nil =>
    constructor
    · intro h
      refine ⟨?_, h⟩
      cases after with
      | nil => exact h
      | cons entry rest => exact h.1
    · exact fun h => h.2
  | cons entry rest ih =>
    simp only [List.cons_append, Throughout, ih, and_assoc]
    rfl

theorem Throughout.first {entries : List (WorkflowCommandHistoryEntry M N E L)}
    (h : editor.Throughout P base entries) : P base := by
  cases entries with
  | nil => exact h
  | cons entry rest => exact h.1

theorem undo_timeline [DecidableEq G] : editor.timeline (editor.undoWorkflowAuthoring s) = editor.timeline s := by
  unfold undoWorkflowAuthoring
  cases hlast : s.undoStack.getLast? with
  | none => rfl
  | some entry =>
    simp only [timeline, withGraph, List.reverse_append, List.reverse_singleton]
    rw [← List.append_assoc, ← getLast?_split hlast]

theorem redo_timeline [DecidableEq G] : editor.timeline (editor.redoWorkflowAuthoring s) = editor.timeline s := by
  unfold redoWorkflowAuthoring
  cases hlast : s.redoStack.getLast? with
  | none => rfl
  | some entry =>
    have hreverse : s.redoStack.reverse = entry :: s.redoStack.dropLast.reverse := by
      conv_lhs => rw [getLast?_split hlast]
      rw [List.reverse_append, List.reverse_singleton, List.singleton_append]
    simp only [timeline, withGraph, List.append_assoc, List.singleton_append, hreverse]

section
variable (hsame : ∀ graph graph', editor.parts.Same graph graph' → P graph → P graph')
include hsame

/-- The draft is on the timeline. -/
theorem Throughout.draft (h : editor.Throughout P base (editor.timeline s))
    (hcoherent : editor.Coherent base s) : P s.graph :=
  hsame _ _ hcoherent.graph.symm (throughout_append.mp h).2.first

variable [DecidableEq G] [DecidableEq M] [DecidableEq N] [DecidableEq E]

theorem Throughout.pushEntry (h : editor.Throughout P base (editor.timeline s))
    (hcoherent : editor.Coherent base s) (label : L) {next : G}
    (hnext : P (editor.parts.applyPatch s.graph (editor.parts.diffGraph s.graph next))) :
    editor.Throughout P base (editor.timeline (editor.pushEntry s label next)) := by
  unfold Authoring.pushEntry
  simp only
  split_ifs with hnone
  · exact h
  · obtain ⟨hpast, hrest⟩ := throughout_append.mp h
    rw [timeline, withGraph, List.reverse_nil, List.append_nil]
    exact throughout_append.mpr ⟨hpast, hrest.first,
      hsame _ _ (hcoherent.graph.applyPatch _) hnext⟩

theorem Throughout.step (h : editor.Throughout P base (editor.timeline s))
    (hcoherent : editor.Coherent base s) (event : DraftEvent G K L)
    (hnext : ∀ next, editor.nextGraph s event = some next →
      P (editor.parts.applyPatch s.graph (editor.parts.diffGraph s.graph next))) :
    editor.Throughout P base (editor.timeline (editor.step s event)) := by
  cases event with
  | dispatch command =>
    simp only [Authoring.step, dispatchWorkflowAuthoringCommand]
    cases htransform : editor.transformGraph s.graph command with
    | error issue => exact h
    | ok transformed =>
      simp only
      split_ifs with hnone
      · exact h
      · exact h.pushEntry hsame hcoherent _ (hnext _ (by simp [nextGraph, htransform]))
  | commit graph label => exact h.pushEntry hsame hcoherent label (hnext _ rfl)
  | undo =>
    rw [Authoring.step, undo_timeline]
    exact h
  | redo =>
    rw [Authoring.step, redo_timeline]
    exact h
  | acknowledgeSave snapshot serverRevision =>
    simp only [Authoring.step, acknowledgeWorkflowSave]
    split_ifs with hstale
    · exact h
    · exact h
  | acknowledgePublication expectedRevision serverRevision =>
    simp only [Authoring.step, acknowledgeWorkflowPublication]
    split_ifs with hstale
    · exact h
    · exact h
  | acknowledgeLocalSave snapshot =>
    simp only [Authoring.step, acknowledgeLocalWorkflowSave]
    split_ifs with hstale
    · exact h
    · exact h

/-- What every new graph has, the draft has in every state that a run reaches. -/
theorem DraftRun.keeps {ok : Session editor → DraftEvent G K L → Prop}
    {events : List (DraftEvent G K L)} {s' : Session editor}
    (hrun : editor.DraftRun ok s events s') (hcoherent : editor.Coherent base s)
    (h : editor.Throughout P base (editor.timeline s))
    (hnext : ∀ s event next, ok s event → P s.graph → editor.nextGraph s event = some next →
      P (editor.parts.applyPatch s.graph (editor.parts.diffGraph s.graph next))) :
    P s'.graph := by
  have hkeep : ∀ (s : Session editor) event (s' : Session editor),
      editor.Coherent base s ∧ editor.Throughout P base (editor.timeline s) → ok s event →
      some (editor.step s event) = some s' →
      editor.Coherent base s' ∧ editor.Throughout P base (editor.timeline s') := by
    intro s event s' hinv hok hstep
    obtain rfl := Option.some.inj hstep
    have hdraft := hinv.2.draft hsame hinv.1
    exact ⟨hinv.1.step event, hinv.2.step hsame hinv.1 event fun next => hnext s event next hok hdraft⟩
  have hend := hrun.invariant hkeep ⟨hcoherent, h⟩
  exact hend.2.draft hsame hend.1

end

end VibeKanban.Editor.Authoring
