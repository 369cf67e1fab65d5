import VibeKanban.Editor.Timeline
import VibeKanban.Lib.Json

/-! Drafts as the objects that the editor holds: every object keeps the order of its keys, and the dirty
flag compares the texts of two drafts, in which this order shows. -/
namespace VibeKanban.Editor
open Lib

mutual
/-- The value with the keys of every object sorted. -/
def sortKeys : Json → Json
  | .arr items => .arr (sortItems items)
  | .obj fields => .obj ((sortFields fields).insertionSort fun a b => a.1 ≤ b.1)
  | value => value
def sortItems : List Json → List Json
  | [] => []
  | item :: rest => sortKeys item :: sortItems rest
def sortFields : List (String × Json) → List (String × Json)
  | [] => []
  | (key, value) :: rest => (key, sortKeys value) :: sortFields rest
end

/-- Equal JSON values irrespective of the order of object keys. -/
def SameJson (a b : Json) : Prop := sortKeys a = sortKeys b

instance (a b : Json) : Decidable (SameJson a b) := inferInstanceAs (Decidable (_ = _))

mutual
/-- Every object lists its keys in the order of `rank`. -/
def InOrder (rank : String → ℕ) : Json → Prop
  | .arr items => ItemsInOrder rank items
  | .obj fields => (fields.Pairwise fun a b => rank a.1 < rank b.1) ∧ FieldsInOrder rank fields
  | _ => True
def ItemsInOrder (rank : String → ℕ) : List Json → Prop
  | [] => True
  | item :: rest => InOrder rank item ∧ ItemsInOrder rank rest
def FieldsInOrder (rank : String → ℕ) : List (String × Json) → Prop
  | [] => True
  | (_, value) :: rest => InOrder rank value ∧ FieldsInOrder rank rest
end

section Order
variable {rank : String → ℕ}

theorem itemsInOrder_iff {items : List Json} :
    ItemsInOrder rank items ↔ ∀ item ∈ items, InOrder rank item := by
  induction items with
  | nil => simp [ItemsInOrder]
  | cons item rest ih => simp [ItemsInOrder, ih]

theorem fieldsInOrder_iff {fields : List (String × Json)} :
    FieldsInOrder rank fields ↔ ∀ field ∈ fields, InOrder rank field.2 := by
  induction fields with
  | nil => simp [FieldsInOrder]
  | cons field rest ih => simp [FieldsInOrder, ih]

theorem sortFields_keys (fields : List (String × Json)) :
    (sortFields fields).map Prod.fst = fields.map Prod.fst := by
  induction fields with
  | nil => rfl
  | cons field rest ih => rw [sortFields, List.map_cons, List.map_cons, ih]

theorem sortFields_pairwise {fields : List (String × Json)}
    (h : fields.Pairwise fun a b => rank a.1 < rank b.1) :
    (sortFields fields).Pairwise fun a b => rank a.1 < rank b.1 := by
  have hkeys : (fields.map Prod.fst).Pairwise (rank · < rank ·) := List.pairwise_map.mpr h
  rw [← sortFields_keys, List.pairwise_map] at hkeys
  exact hkeys

/-- Fields in one order are the same when they are the same up to order. -/
theorem sortFields_inj {l m : List (String × Json)}
    (hl : l.Pairwise fun a b => rank a.1 < rank b.1) (hm : m.Pairwise fun a b => rank a.1 < rank b.1)
    (h : (sortFields l).insertionSort (fun a b => a.1 ≤ b.1) =
      (sortFields m).insertionSort fun a b => a.1 ≤ b.1) : sortFields l = sortFields m := by
  have hperm : (sortFields l).Perm (sortFields m) := by
    refine (List.perm_insertionSort (fun a b => a.1 ≤ b.1) (sortFields l)).symm.trans ?_
    rw [h]
    exact List.perm_insertionSort _ _
  refine List.Perm.eq_of_pairwise (fun a b _ _ hab hba => ?_) (sortFields_pairwise hl)
    (sortFields_pairwise hm) hperm
  exact absurd hab (Nat.lt_asymm hba)

mutual
/-- In one order of keys the texts of equal values are equal. -/
theorem eq_of_sameJson : ∀ {a b : Json}, InOrder rank a → InOrder rank b → SameJson a b → a = b
  | .arr l, b, ha, hb, h => by
    cases b with
    | arr m =>
      have hitems : sortItems l = sortItems m := by simpa [SameJson, sortKeys] using h
      exact congrArg Json.arr (items_eq_of_same ha hb hitems)
    | _ => simp [SameJson, sortKeys] at h
  | .obj l, b, ha, hb, h => by
    cases b with
    | obj m =>
      have hfields := sortFields_inj ha.1 hb.1 (by simpa [SameJson, sortKeys] using h)
      exact congrArg Json.obj (fields_eq_of_same ha.2 hb.2 hfields)
    | _ => simp [SameJson, sortKeys] at h
  | .null, b, _, _, h => by cases b <;> simp_all [SameJson, sortKeys]
  | .bool _, b, _, _, h => by cases b <;> simp_all [SameJson, sortKeys]
  | .num _, b, _, _, h => by cases b <;> simp_all [SameJson, sortKeys]
  | .real _, b, _, _, h => by cases b <;> simp_all [SameJson, sortKeys]
  | .str _, b, _, _, h => by cases b <;> simp_all [SameJson, sortKeys]
theorem items_eq_of_same : ∀ {l m : List Json}, ItemsInOrder rank l → ItemsInOrder rank m →
    sortItems l = sortItems m → l = m
  | [], [], _, _, _ => rfl
  | [], _ :: _, _, _, h => by simp [sortItems] at h
  | _ :: _, [], _, _, h => by simp [sortItems] at h
  | _ :: _, _ :: _, hl, hm, h => by
    obtain ⟨hitem, hrest⟩ := List.cons.inj h
    rw [eq_of_sameJson hl.1 hm.1 hitem, items_eq_of_same hl.2 hm.2 hrest]
theorem fields_eq_of_same : ∀ {l m : List (String × Json)}, FieldsInOrder rank l →
    FieldsInOrder rank m → sortFields l = sortFields m → l = m
  | [], [], _, _, _ => rfl
  | [], _ :: _, _, _, h => by simp [sortFields] at h
  | _ :: _, [], _, _, h => by simp [sortFields] at h
  | (_, _) :: _, (_, _) :: _, hl, hm, h => by
    obtain ⟨hfield, hrest⟩ := List.cons.inj h
    obtain ⟨rfl, hvalue⟩ := Prod.mk.inj hfield
    rw [eq_of_sameJson hl.1 hm.1 hvalue, fields_eq_of_same hl.2 hm.2 hrest]
end

end Order

/-- The fields of a graph but for its nodes and edges. -/
def WorkflowGraphMetadata : Type :=
  { fields : List (String × Json) // ∀ field ∈ fields, field.1 ≠ "nodes" ∧ field.1 ≠ "edges" }

instance : DecidableEq WorkflowGraphMetadata := inferInstanceAs (DecidableEq (Subtype _))

/-- A graph by its fields. -/
abbrev GraphObject := List (String × Json)

def getWorkflowGraphMetadata (graph : GraphObject) : WorkflowGraphMetadata :=
  ⟨graph.filter fun field => field.1 ≠ "nodes" ∧ field.1 ≠ "edges",
    fun field hfield => by simpa using (List.mem_filter.mp hfield).2⟩

def arrayField (graph : GraphObject) (key : String) : List Json :=
  ((graph.lookup key).bind Json.asArray?).getD []

def entityId (entity : Json) : String := ((entity.get? "id").bind Json.asStr?).getD ""

def buildGraph (metadata : WorkflowGraphMetadata) (nodes edges : List Json) : GraphObject :=
  metadata.1 ++ [("nodes", .arr nodes), ("edges", .arr edges)]

theorem lookup_append_of_ne {l m : List (String × Json)} {key : String}
    (h : ∀ field ∈ l, field.1 ≠ key) : (l ++ m).lookup key = m.lookup key := by
  induction l with
  | nil => rfl
  | cons field rest ih =>
    obtain ⟨hfield, hrest⟩ := List.forall_mem_cons.mp h
    rw [List.cons_append, List.lookup_cons, beq_eq_false_iff_ne.mpr hfield.symm]
    exact ih hrest

/-- Graphs as objects; a patched graph has its nodes and edges behind all other fields. -/
def draftParts : GraphParts GraphObject WorkflowGraphMetadata Json Json where
  metadata := getWorkflowGraphMetadata
  nodes graph := arrayField graph "nodes"
  edges graph := arrayField graph "edges"
  nodeId := entityId
  edgeId := entityId
  build := buildGraph
  metadata_build := by
    intro metadata nodes edges
    refine Subtype.ext ?_
    simp only [getWorkflowGraphMetadata, buildGraph, List.filter_append]
    rw [List.filter_eq_self.mpr fun field hfield => by simpa using metadata.2 field hfield]
    simp
  nodes_build := by
    intro metadata nodes edges
    simp only [arrayField, buildGraph]
    rw [lookup_append_of_ne fun field hfield => (metadata.2 field hfield).1]
    rfl
  edges_build := by
    intro metadata nodes edges
    simp only [arrayField, buildGraph]
    rw [lookup_append_of_ne fun field hfield => (metadata.2 field hfield).2]
    rfl

/-- Nodes and edges are the last keys. -/
structure NodesAndEdgesLast (rank : String → ℕ) : Prop where
  nodes : ∀ key, key ≠ "nodes" → key ≠ "edges" → rank key < rank "nodes"
  edges : rank "nodes" < rank "edges"

section OrderedGraphs
variable {rank : String → ℕ}

def MetadataInOrder (rank : String → ℕ) (metadata : WorkflowGraphMetadata) : Prop :=
  InOrder rank (.obj metadata.1)

/-- Both versions of each changed entity are in order. -/
def ChangesInOrder (rank : String → ℕ) (changes : List (EntityPatch Json)) : Prop :=
  ∀ change ∈ changes, (∀ item ∈ change.before, InOrder rank item) ∧
    ∀ item ∈ change.after, InOrder rank item

structure PatchInOrder (rank : String → ℕ) (patch : DraftPatch WorkflowGraphMetadata Json Json) :
    Prop where
  metadata : ∀ versions ∈ patch.metadata,
    MetadataInOrder rank versions.1 ∧ MetadataInOrder rank versions.2
  nodes : ChangesInOrder rank patch.nodes
  edges : ChangesInOrder rank patch.edges

/-- The parts of a graph are in order, wherever its nodes and edges stand among its keys. -/
structure PartsInOrder (rank : String → ℕ) (graph : GraphObject) : Prop where
  metadata : MetadataInOrder rank (getWorkflowGraphMetadata graph)
  nodes : ∀ item ∈ arrayField graph "nodes", InOrder rank item
  edges : ∀ item ∈ arrayField graph "edges", InOrder rank item

theorem buildGraph_inOrder (hlast : NodesAndEdgesLast rank) {metadata : WorkflowGraphMetadata}
    {nodes edges : List Json} (hmetadata : MetadataInOrder rank metadata)
    (hnodes : ∀ item ∈ nodes, InOrder rank item) (hedges : ∀ item ∈ edges, InOrder rank item) :
    InOrder rank (.obj (buildGraph metadata nodes edges)) := by
  constructor
  · refine List.pairwise_append.mpr ⟨hmetadata.1, ?_, fun field hfield last hlast' => ?_⟩
    · simpa using hlast.edges
    · obtain ⟨hnode, hedge⟩ := metadata.2 field hfield
      have hbelow := hlast.nodes field.1 hnode hedge
      obtain rfl | hlast' := List.mem_cons.mp hlast'
      · exact hbelow
      · rw [List.mem_singleton.mp hlast']
        exact hbelow.trans hlast.edges
  · rw [fieldsInOrder_iff]
    intro field hfield
    obtain hfield | hfield := List.mem_append.mp hfield
    · exact fieldsInOrder_iff.mp hmetadata.2 field hfield
    · obtain rfl | hfield := List.mem_cons.mp hfield
      · exact itemsInOrder_iff.mpr hnodes
      · rw [List.mem_singleton.mp hfield]
        exact itemsInOrder_iff.mpr hedges

theorem diffEntities_inOrder {before after : List Json}
    (hbefore : ∀ item ∈ before, InOrder rank item) (hafter : ∀ item ∈ after, InOrder rank item) :
    ChangesInOrder rank (diffEntities entityId before after) := by
  intro change hchange
  rw [mem_diffEntities hchange]
  constructor
  · intro item hitem
    obtain ⟨entry, hentry, rfl⟩ := Option.map_eq_some_iff.mp hitem
    exact hbefore _ (List.fst_mem_of_mem_zipIdx (entryAt_mem hentry).1)
  · intro item hitem
    obtain ⟨entry, hentry, rfl⟩ := Option.map_eq_some_iff.mp hitem
    exact hafter _ (List.fst_mem_of_mem_zipIdx (entryAt_mem hentry).1)

theorem applyEntityPatch_inOrder {current : List Json} {changes : List (EntityPatch Json)}
    (hcurrent : ∀ item ∈ current, InOrder rank item) (hchanges : ChangesInOrder rank changes) :
    ∀ item ∈ applyEntityPatch entityId current changes, InOrder rank item := by
  intro item hitem
  obtain hitem | hitem := List.mem_append.mp ((applyEntityPatch_perm _ _).mem_iff.mp hitem)
  · obtain ⟨change, hchange, hafter⟩ := List.mem_filterMap.mp hitem
    exact (hchanges change hchange).2 item hafter
  · exact hcurrent item (List.mem_filter.mp hitem).1

theorem diffGraph_inOrder {before after : GraphObject} (hbefore : PartsInOrder rank before)
    (hafter : PartsInOrder rank after) : PatchInOrder rank (draftParts.diffGraph before after) := by
  constructor
  · intro versions hversions
    simp only [GraphParts.diffGraph] at hversions
    split_ifs at hversions with hsame
    · cases hversions
    · obtain rfl := Option.some.inj hversions
      exact ⟨hbefore.metadata, hafter.metadata⟩
  · exact diffEntities_inOrder hbefore.nodes hafter.nodes
  · exact diffEntities_inOrder hbefore.edges hafter.edges

theorem ChangesInOrder.invert {changes : List (EntityPatch Json)} (h : ChangesInOrder rank changes) :
    ChangesInOrder rank (changes.map EntityPatch.invert) := by
  intro change hchange
  obtain ⟨original, horiginal, rfl⟩ := List.mem_map.mp hchange
  exact (h original horiginal).symm

theorem PatchInOrder.invert {patch : DraftPatch WorkflowGraphMetadata Json Json}
    (h : PatchInOrder rank patch) : PatchInOrder rank (GraphParts.invertPatch patch) := by
  refine ⟨fun versions hversions => ?_, h.nodes.invert, h.edges.invert⟩
  obtain ⟨original, horiginal, rfl⟩ := Option.map_eq_some_iff.mp hversions
  exact (h.metadata original horiginal).symm

/-- What a patch leads to has its parts in order, -/
theorem applyPatch_parts {graph : GraphObject} {patch : DraftPatch WorkflowGraphMetadata Json Json}
    (hgraph : PartsInOrder rank graph) (hpatch : PatchInOrder rank patch) :
    PartsInOrder rank (draftParts.applyPatch graph patch) := by
  constructor
  · unfold GraphParts.applyPatch
    change MetadataInOrder rank (draftParts.metadata (draftParts.build _ _ _))
    rw [draftParts.metadata_build]
    cases hmetadata : patch.metadata with
    | none => exact hgraph.metadata
    | some versions => exact (hpatch.metadata versions hmetadata).2
  · unfold GraphParts.applyPatch
    change ∀ item ∈ draftParts.nodes (draftParts.build _ _ _), InOrder rank item
    rw [draftParts.nodes_build]
    exact applyEntityPatch_inOrder hgraph.nodes hpatch.nodes
  · unfold GraphParts.applyPatch
    change ∀ item ∈ draftParts.edges (draftParts.build _ _ _), InOrder rank item
    rw [draftParts.edges_build]
    exact applyEntityPatch_inOrder hgraph.edges hpatch.edges

/-- and is in order as a whole: its nodes and edges are the last keys. -/
theorem applyPatch_inOrder (hlast : NodesAndEdgesLast rank) {graph : GraphObject}
    {patch : DraftPatch WorkflowGraphMetadata Json Json} (hgraph : PartsInOrder rank graph)
    (hpatch : PatchInOrder rank patch) :
    InOrder rank (.obj (draftParts.applyPatch graph patch)) := by
  refine buildGraph_inOrder hlast ?_ (applyEntityPatch_inOrder hgraph.nodes hpatch.nodes)
    (applyEntityPatch_inOrder hgraph.edges hpatch.edges)
  cases hmetadata : patch.metadata with
  | none => exact hgraph.metadata
  | some versions => exact (hpatch.metadata versions hmetadata).2

end OrderedGraphs

section Editor
variable {K L I : Type} (canonicalize : GraphObject → GraphObject) (type : K → L)
  (transformGraph : GraphObject → K → Except I (GraphTransform GraphObject))

/-- The editor of graphs as objects, for any commands and any canonical form. -/
def draftEditor : Authoring GraphObject WorkflowGraphMetadata Json Json K L I :=
  ⟨draftParts, canonicalize, type, transformGraph⟩

variable {canonicalize type transformGraph}

/-- The patch that an event applies to the draft. -/
def patchOf (s : Session (draftEditor canonicalize type transformGraph)) :
    DraftEvent GraphObject K L → Option (DraftPatch WorkflowGraphMetadata Json Json)
  | .undo => s.undoStack.getLast?.map (·.inverse)
  | .redo => s.redoStack.getLast?.map (·.forward)
  | event =>
    (((draftEditor canonicalize type transformGraph).nextGraph s event).map
      (draftParts.diffGraph s.graph)).filter fun patch =>
        !(patch.metadata.isNone && patch.nodes.isEmpty && patch.edges.isEmpty)

/-- The graph that a save is acknowledged with, unless the acknowledgement is stale. -/
def acknowledged (s : Session (draftEditor canonicalize type transformGraph)) :
    DraftEvent GraphObject K L → Option GraphObject
  | .acknowledgeSave snapshot serverRevision =>
    if snapshot.expectedRevision ≠ s.serverRevision ∨ serverRevision ≤ s.serverRevision then none
    else some snapshot.graph
  | .acknowledgeLocalSave snapshot =>
    if snapshot.expectedRevision ≠ s.serverRevision then none else some snapshot.graph
  | _ => none

/-- The version on the server is in order if the patch leads back to its values. -/
def ReturnsInOrder (rank : String → ℕ) (s : Session (draftEditor canonicalize type transformGraph))
    (patch : DraftPatch WorkflowGraphMetadata Json Json) : Prop :=
  SameJson (.obj (draftParts.applyPatch s.graph patch)) (.obj s.persistedGraph) →
    InOrder rank (.obj s.persistedGraph)

/-- New graphs have their parts in order, a patch leads back to the version on the server only where
that is in order, and a saved graph with the values of the draft is written as the draft is. -/
structure EventInOrder (rank : String → ℕ)
    (s : Session (draftEditor canonicalize type transformGraph)) (event : DraftEvent GraphObject K L) :
    Prop where
  next : ∀ next, (draftEditor canonicalize type transformGraph).nextGraph s event = some next →
    PartsInOrder rank next
  returns : ∀ patch, patchOf s event = some patch → ReturnsInOrder rank s patch
  saved : ∀ graph, acknowledged s event = some graph → SameJson (.obj s.graph) (.obj graph) →
    s.graph = graph ∨ InOrder rank (.obj s.graph) ∧ InOrder rank (.obj graph)

section Steps
variable {rank : String → ℕ} {s : Session (draftEditor canonicalize type transformGraph)}

theorem pushEntry_cases (label : L) (nextGraph : GraphObject) :
    let s' := (draftEditor canonicalize type transformGraph).pushEntry s label nextGraph
    let patch := draftParts.diffGraph s.graph nextGraph
    (patch.metadata.isNone && patch.nodes.isEmpty && patch.edges.isEmpty) = false ∧
        s'.graph = draftParts.applyPatch s.graph patch ∧ s'.persistedGraph = s.persistedGraph ∨
      (patch.metadata.isNone && patch.nodes.isEmpty && patch.edges.isEmpty) = true ∧
        s'.graph = s.graph ∧ s'.persistedGraph = s.persistedGraph := by
  intro s' patch
  by_cases hnone : (patch.metadata.isNone && patch.nodes.isEmpty && patch.edges.isEmpty) = true
  · right
    have hsame : s' = s := if_pos hnone
    rw [hsame]
    exact ⟨hnone, rfl, rfl⟩
  · left
    have hpushed : s' = withGraph _ (draftParts.applyPatch s.graph patch) s.persistedGraph :=
      if_neg hnone
    rw [hpushed]
    exact ⟨by simpa using hnone, rfl, rfl⟩

/-- An event applies its patch, takes over a saved graph, or leaves both graphs. -/
theorem step_cases (event : DraftEvent GraphObject K L) :
    let s' := (draftEditor canonicalize type transformGraph).step s event
    (∃ patch, patchOf s event = some patch ∧ s'.graph = draftParts.applyPatch s.graph patch ∧
        s'.persistedGraph = s.persistedGraph) ∨
      (∃ graph, acknowledged s event = some graph ∧ s'.graph = s.graph ∧
        s'.persistedGraph = graph) ∨
      (patchOf s event = none ∧ s'.graph = s.graph ∧ s'.persistedGraph = s.persistedGraph) := by
  cases event with
  | dispatch command =>
    simp only [patchOf, Authoring.nextGraph, Authoring.step, Authoring.dispatchWorkflowAuthoringCommand]
    cases htransform : (draftEditor canonicalize type transformGraph).transformGraph s.graph
        command with
    | error issue => exact .inr (.inr ⟨rfl, rfl, rfl⟩)
    | ok transformed =>
      have hpush := pushEntry_cases (s := s) (type command) (canonicalize transformed.graph)
      simp only [Option.map_some, Option.filter_some]
      obtain ⟨hsome, hgraph, hpersisted⟩ | ⟨hnone, hgraph, hpersisted⟩ := hpush
      · left
        refine ⟨_, if_pos ?_, ?_, ?_⟩
        · exact congrArg (!·) hsome
        · exact (congrArg _ (if_neg (Bool.eq_false_iff.mp hsome))).trans hgraph
        · exact (congrArg _ (if_neg (Bool.eq_false_iff.mp hsome))).trans hpersisted
      · right; right
        refine ⟨if_neg ?_, ?_, ?_⟩
        · exact Bool.eq_false_iff.mp (congrArg (!·) hnone)
        · exact congrArg WorkflowAuthoringState.graph (if_pos hnone)
        · exact congrArg WorkflowAuthoringState.persistedGraph (if_pos hnone)
  | commit graph label =>
    obtain ⟨hsome, hgraph, hpersisted⟩ | ⟨hnone, hgraph, hpersisted⟩ :=
      pushEntry_cases (s := s) label (canonicalize graph)
    · left
      refine ⟨_, ?_, hgraph, hpersisted⟩
      exact if_pos (congrArg (!·) hsome)
    · right; right
      refine ⟨?_, hgraph, hpersisted⟩
      exact if_neg (Bool.eq_false_iff.mp (congrArg (!·) hnone))
  | undo =>
    simp only [patchOf, Authoring.step, Authoring.undoWorkflowAuthoring]
    cases hentry : s.undoStack.getLast? with
    | none => exact .inr (.inr ⟨rfl, rfl, rfl⟩)
    | some entry => exact .inl ⟨entry.inverse, rfl, rfl, rfl⟩
  | redo =>
    simp only [patchOf, Authoring.step, Authoring.redoWorkflowAuthoring]
    cases hentry : s.redoStack.getLast? with
    | none => exact .inr (.inr ⟨rfl, rfl, rfl⟩)
    | some entry => exact .inl ⟨entry.forward, rfl, rfl, rfl⟩
  | acknowledgeSave snapshot serverRevision =>
    simp only [acknowledged, Authoring.step, Authoring.acknowledgeWorkflowSave]
    split_ifs with hstale
    · exact .inr (.inr ⟨rfl, rfl, rfl⟩)
    · exact .inr (.inl ⟨snapshot.graph, rfl, rfl, rfl⟩)
  | acknowledgePublication expectedRevision serverRevision =>
    simp only [Authoring.step, Authoring.acknowledgeWorkflowPublication]
    split_ifs with hstale
    · exact .inr (.inr ⟨rfl, rfl, rfl⟩)
    · exact .inr (.inr ⟨rfl, rfl, rfl⟩)
  | acknowledgeLocalSave snapshot =>
    simp only [acknowledged, Authoring.step, Authoring.acknowledgeLocalWorkflowSave]
    split_ifs with hstale
    · exact .inr (.inr ⟨rfl, rfl, rfl⟩)
    · exact .inr (.inl ⟨snapshot.graph, rfl, rfl, rfl⟩)

/-- The draft and the patches of its history are in order. -/
structure HistoryInOrder (rank : String → ℕ)
    (s : Session (draftEditor canonicalize type transformGraph)) : Prop where
  graph : PartsInOrder rank s.graph
  undo : ∀ entry ∈ s.undoStack, PatchInOrder rank entry.forward ∧ PatchInOrder rank entry.inverse
  redo : ∀ entry ∈ s.redoStack, PatchInOrder rank entry.forward ∧ PatchInOrder rank entry.inverse

theorem HistoryInOrder.pushEntry (h : HistoryInOrder rank s) (label : L) {nextGraph : GraphObject}
    (hnext : PartsInOrder rank nextGraph) :
    HistoryInOrder rank ((draftEditor canonicalize type transformGraph).pushEntry s label nextGraph) := by
  unfold Authoring.pushEntry
  simp only
  split_ifs with hnone
  · exact h
  · have hforward := diffGraph_inOrder h.graph hnext
    refine ⟨applyPatch_parts h.graph hforward, fun entry hentry => ?_,
      fun entry hentry => absurd hentry List.not_mem_nil⟩
    obtain hentry | hentry := List.mem_append.mp hentry
    · exact h.undo entry hentry
    · rw [List.mem_singleton.mp hentry]
      exact ⟨hforward, hforward.invert⟩

theorem HistoryInOrder.step (h : HistoryInOrder rank s) {event : DraftEvent GraphObject K L}
    (hnext : ∀ next, (draftEditor canonicalize type transformGraph).nextGraph s event = some next →
      PartsInOrder rank next) :
    HistoryInOrder rank ((draftEditor canonicalize type transformGraph).step s event) := by
  cases event with
  | dispatch command =>
    simp only [Authoring.step, Authoring.dispatchWorkflowAuthoringCommand]
    cases htransform : (draftEditor canonicalize type transformGraph).transformGraph s.graph
        command with
    | error issue => exact h
    | ok transformed =>
      simp only
      split_ifs with hnone
      · exact h
      · have hgraph : (draftEditor canonicalize type transformGraph).nextGraph s (.dispatch command) =
            some (canonicalize transformed.graph) := by
          simp only [Authoring.nextGraph, htransform]
          rfl
        have hpush := h.pushEntry (type command) (hnext _ hgraph)
        exact ⟨hpush.graph, hpush.undo, hpush.redo⟩
  | commit graph label => exact h.pushEntry label (hnext _ rfl)
  | undo =>
    simp only [Authoring.step, Authoring.undoWorkflowAuthoring]
    cases hentry : s.undoStack.getLast? with
    | none => exact h
    | some entry =>
      have hmem := List.mem_of_getLast? hentry
      refine ⟨applyPatch_parts h.graph (h.undo entry hmem).2,
        fun other hother => h.undo other ((List.dropLast_sublist _).subset hother), fun other hother => ?_⟩
      obtain hother | hother := List.mem_append.mp hother
      · exact h.redo other hother
      · rw [List.mem_singleton.mp hother]
        exact h.undo entry hmem
  | redo =>
    simp only [Authoring.step, Authoring.redoWorkflowAuthoring]
    cases hentry : s.redoStack.getLast? with
    | none => exact h
    | some entry =>
      have hmem := List.mem_of_getLast? hentry
      refine ⟨applyPatch_parts h.graph (h.redo entry hmem).1,
        fun other hother => ?_, fun other hother => h.redo other ((List.dropLast_sublist _).subset hother)⟩
      obtain hother | hother := List.mem_append.mp hother
      · exact h.undo other hother
      · rw [List.mem_singleton.mp hother]
        exact h.redo entry hmem
  | acknowledgeSave snapshot serverRevision =>
    simp only [Authoring.step, Authoring.acknowledgeWorkflowSave]
    split_ifs with hstale
    · exact h
    · exact ⟨h.graph, h.undo, h.redo⟩
  | acknowledgePublication expectedRevision serverRevision =>
    simp only [Authoring.step, Authoring.acknowledgeWorkflowPublication]
    split_ifs with hstale
    · exact h
    · exact ⟨h.graph, h.undo, h.redo⟩
  | acknowledgeLocalSave snapshot =>
    simp only [Authoring.step, Authoring.acknowledgeLocalWorkflowSave]
    split_ifs with hstale
    · exact h
    · exact ⟨h.graph, h.undo, h.redo⟩

theorem HistoryInOrder.patchOf (h : HistoryInOrder rank s) {event : DraftEvent GraphObject K L}
    (hnext : ∀ next, (draftEditor canonicalize type transformGraph).nextGraph s event = some next →
      PartsInOrder rank next)
    {patch : DraftPatch WorkflowGraphMetadata Json Json} (hpatch : patchOf s event = some patch) :
    PatchInOrder rank patch := by
  have hpushed {event : DraftEvent GraphObject K L}
      (hnext : ∀ next, (draftEditor canonicalize type transformGraph).nextGraph s event = some next →
        PartsInOrder rank next)
      (hsome : (((draftEditor canonicalize type transformGraph).nextGraph s event).map
        (draftParts.diffGraph s.graph)).filter (fun patch =>
          !(patch.metadata.isNone && patch.nodes.isEmpty && patch.edges.isEmpty)) = some patch) :
      PatchInOrder rank patch := by
    obtain ⟨next, hnextGraph, rfl⟩ := Option.map_eq_some_iff.mp (Option.filter_eq_some_iff.mp hsome).1
    exact diffGraph_inOrder h.graph (hnext next hnextGraph)
  cases event with
  | undo =>
    obtain ⟨entry, hentry, rfl⟩ := Option.map_eq_some_iff.mp hpatch
    exact (h.undo entry (List.mem_of_getLast? hentry)).2
  | redo =>
    obtain ⟨entry, hentry, rfl⟩ := Option.map_eq_some_iff.mp hpatch
    exact (h.redo entry (List.mem_of_getLast? hentry)).1
  | dispatch command => exact hpushed hnext hpatch
  | commit graph label => exact hpushed hnext hpatch
  | acknowledgeSave snapshot serverRevision => cases hpatch
  | acknowledgePublication expectedRevision serverRevision => cases hpatch
  | acknowledgeLocalSave snapshot => cases hpatch

/-- The texts of the draft and of the version on the server are equal when their values are. -/
def Alike (s : Session (draftEditor canonicalize type transformGraph)) : Prop :=
  SameJson (.obj s.graph) (.obj s.persistedGraph) → s.graph = s.persistedGraph

/-- After a patch the texts tell equal values exactly if the version on the server is in order
wherever the patch leads back to it. -/
theorem alike_patch_iff (hlast : NodesAndEdgesLast rank) (h : HistoryInOrder rank s)
    {event : DraftEvent GraphObject K L}
    (hnext : ∀ next, (draftEditor canonicalize type transformGraph).nextGraph s event = some next →
      PartsInOrder rank next)
    {patch : DraftPatch WorkflowGraphMetadata Json Json} (hpatch : patchOf s event = some patch) :
    Alike ((draftEditor canonicalize type transformGraph).step s event) ↔
      ReturnsInOrder rank s patch := by
  have horder := applyPatch_inOrder hlast h.graph (h.patchOf hnext hpatch)
  obtain ⟨patch', hpatch', hgraph, hpersisted⟩ | ⟨graph, hsaved, _, _⟩ | ⟨hnone, _, _⟩ :=
    step_cases (s := s) event
  · obtain rfl := Option.some.inj (hpatch.symm.trans hpatch')
    rw [Alike, hgraph, hpersisted, ReturnsInOrder]
    constructor
    · intro halike hsame
      rw [← halike hsame]
      exact horder
    · intro hreturns hsame
      exact Json.obj.inj (eq_of_sameJson horder (hreturns hsame) hsame)
  · cases event with
    | acknowledgeSave snapshot serverRevision => cases hpatch
    | acknowledgeLocalSave snapshot => cases hpatch
    | _ => cases hsaved
  · rw [hpatch] at hnone
    cases hnone

theorem Alike.step (halike : Alike s) (hlast : NodesAndEdgesLast rank) (h : HistoryInOrder rank s)
    {event : DraftEvent GraphObject K L} (hevent : EventInOrder rank s event) :
    Alike ((draftEditor canonicalize type transformGraph).step s event) := by
  obtain ⟨patch, hpatch, _, _⟩ | ⟨graph, hsaved, hgraph, hpersisted⟩ | ⟨_, hgraph, hpersisted⟩ :=
    step_cases (s := s) event
  · exact (alike_patch_iff hlast h hevent.next hpatch).mpr (hevent.returns patch hpatch)
  · rw [Alike, hgraph, hpersisted]
    intro hsame
    obtain hequal | ⟨hdraft, hversion⟩ := hevent.saved graph hsaved hsame
    · exact hequal
    · exact Json.obj.inj (eq_of_sameJson hdraft hversion hsame)
  · rw [Alike, hgraph, hpersisted]
    exact halike

end Steps

end Editor

/-- An empty graph with a canvas, with its keys as the server writes them. -/
def emptyCanvas : GraphObject :=
  [("version", .num 2), ("nodes", .arr []), ("edges", .arr []), ("canvas", .obj [])]

def keepGraph (graph : GraphObject) (_ : Unit) : Except Unit (GraphTransform GraphObject) :=
  .ok ⟨graph, none, none, none, none⟩

abbrev canvasEditor : Authoring GraphObject WorkflowGraphMetadata Json Json Unit Unit Unit :=
  draftEditor id id keepGraph

/-- The session that opens the empty graph, with its next states: an executor is set, the draft is
saved, a node is added. -/
def opened : Session canvasEditor := canvasEditor.createWorkflowAuthoringState emptyCanvas 0

end VibeKanban.Editor
