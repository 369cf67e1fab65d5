import VibeKanban.WebCore.Migrate

/-! Both normal forms of a graph are stable: migrating a graph again, or canonicalizing it again, changes
nothing. -/
namespace VibeKanban.WebCore
open Lib

theorem map_zipIdx_self {α : Type} {f : α × ℕ → α} {l : List α}
    (h : ∀ entry ∈ l.zipIdx, f entry = entry.1) : l.zipIdx.map f = l := by
  conv_rhs => rw [← List.zipIdx_map_fst 0 l]
  exact List.map_congr_left h

theorem map_self {α : Type} {f : α → α} {l : List α} (h : ∀ a ∈ l, f a = a) : l.map f = l := by
  conv_rhs => rw [← List.map_id l]
  exact List.map_congr_left h

section Texts

theorem mem_legacy_iff {handle : String} :
    isLegacyWorkflowPortHandle handle = true ↔ handle ∈ legacyPositionalHandleIds := by
  rw [isLegacyWorkflowPortHandle, decide_eq_true_eq]

/-- A handle that is no position is left alone. -/
theorem normalizeWorkflowPortHandle_self {handle fallback : String}
    (h : isLegacyWorkflowPortHandle handle = false) :
    normalizeWorkflowPortHandle (some handle) fallback = handle := by
  have hnot : handle ∉ legacyPositionalHandleIds := by
    rw [← mem_legacy_iff, h]
    exact Bool.false_ne_true
  simp only [legacyPositionalHandleIds, List.mem_cons, List.not_mem_nil, or_false, not_or] at hnot
  simp [normalizeWorkflowPortHandle, hnot]

theorem branch_not_legacy (branchId : String) :
    isLegacyWorkflowPortHandle ("branch:" ++ branchId) = false := by
  by_contra hlegacy
  have hmem := mem_legacy_iff.mp (Bool.eq_true_of_not_eq_false hlegacy)
  have hnone : ∀ handle ∈ legacyPositionalHandleIds, startsWith handle "branch:" = false := by decide
  have hstart := startsWith_append "branch:" branchId
  rw [hnone _ hmem] at hstart
  contradiction

theorem plainSourceHandle_spec (handle : Option String) :
    plainSourceHandle handle ≠ "" ∧ isLegacyWorkflowPortHandle (plainSourceHandle handle) = false := by
  unfold plainSourceHandle
  cases handle with
  | none => exact ⟨by decide, by decide⟩
  | some handle =>
    simp only
    split_ifs with h
    · exact h
    · exact ⟨by decide, by decide⟩

theorem plainSourceHandle_self {handle : String} (hne : handle ≠ "")
    (h : isLegacyWorkflowPortHandle handle = false) : plainSourceHandle (some handle) = handle := by
  rw [plainSourceHandle, if_pos ⟨hne, h⟩]

end Texts

section Source
variable {source : Option WorkflowNode} {edge : WorkflowEdge}

/-- The handle that an edge gets is no position. -/
theorem resolve_not_legacy : isLegacyWorkflowPortHandle
    (resolveWorkflowSemanticSourceHandle source edge) = false := by
  unfold resolveWorkflowSemanticSourceHandle
  cases source with
  | none => exact (plainSourceHandle_spec _).2
  | some source =>
    cases htype : source.type with
    | condition =>
      simp only [htype]
      split
      · rename_i handle hhandle
        obtain ⟨_, hstart⟩ := Option.filter_eq_some_iff.mp hhandle
        obtain ⟨branchId, rfl⟩ := startsWith_iff.mp hstart
        exact branch_not_legacy branchId
      · exact branch_not_legacy _
    | humanGate =>
      simp only [htype]
      split_ifs
      · decide
      · decide
      · decide
    | arena =>
      simp only [htype]
      decide
    | start | «end» | agent | transform =>
      simp only [htype]
      exact (plainSourceHandle_spec _).2

/-- Resolved again, an edge keeps its handle. -/
theorem resolve_resolve {targetHandle : Option String} :
    resolveWorkflowSemanticSourceHandle source { edge with
      sourceHandle := some (resolveWorkflowSemanticSourceHandle source edge)
      targetHandle := targetHandle } = resolveWorkflowSemanticSourceHandle source edge := by
  cases source with
  | none =>
    obtain ⟨hne, hlegacy⟩ := plainSourceHandle_spec edge.sourceHandle
    exact plainSourceHandle_self hne hlegacy
  | some source =>
    cases htype : source.type with
    | condition =>
      have hbranch : startsWith (resolveWorkflowSemanticSourceHandle (some source) edge) "branch:" := by
        simp only [resolveWorkflowSemanticSourceHandle, htype]
        split
        · rename_i handle hhandle
          exact (Option.filter_eq_some_iff.mp hhandle).2
        · exact startsWith_append _ _
      conv_lhs => rw [resolveWorkflowSemanticSourceHandle]
      simp only [htype, Option.filter_some, hbranch, if_true]
    | humanGate =>
      simp only [resolveWorkflowSemanticSourceHandle, htype]
      split_ifs <;> simp_all
    | arena => simp only [resolveWorkflowSemanticSourceHandle, htype]
    | start | «end» | agent | transform =>
      obtain ⟨hne, hlegacy⟩ := plainSourceHandle_spec edge.sourceHandle
      simp only [resolveWorkflowSemanticSourceHandle, htype]
      exact plainSourceHandle_self hne hlegacy

end Source

section Target

theorem normalizeWorkflowPortHandle_outputs (handle : Option String) :
    normalizeWorkflowPortHandle handle defaultTargetHandle ∉
      ["output-left", "output-top", "output-right", "output-bottom"] := by
  unfold normalizeWorkflowPortHandle
  cases handle with
  | none => decide
  | some handle =>
    simp only
    split_ifs with hleft htop hright hbottom
    · decide
    · decide
    · decide
    · decide
    · simp only [List.mem_cons, List.not_mem_nil, or_false]
      tauto

/-- The target handle of a migrated edge: no position and no port of its own. -/
theorem targetHandle_stable (handle : Option String) :
    let resolved := resolveWorkflowSemanticTargetHandle
      (some (normalizeWorkflowPortHandle handle defaultTargetHandle))
    isLegacyWorkflowPortHandle resolved = false ∧
      resolveWorkflowSemanticTargetHandle (some resolved) = resolved := by
  have houtput := normalizeWorkflowPortHandle_outputs handle
  generalize normalizeWorkflowPortHandle handle defaultTargetHandle = port at houtput
  simp only [resolveWorkflowSemanticTargetHandle]
  by_cases hempty : port = ""
  · simp only [hempty, if_true]
    decide
  · by_cases hport : port ∈ workflowPortHandleIds ∨ startsWith port "input-"
    · simp only [hempty, hport, if_true, if_false]
      decide
    · simp only [hempty, hport, if_false, and_true]
      by_contra hlegacy
      have hmem := mem_legacy_iff.mp (Bool.eq_true_of_not_eq_false hlegacy)
      have hall : ∀ handle ∈ legacyPositionalHandleIds,
          handle ∈ ["output-left", "output-top", "output-right", "output-bottom"] ∨
            handle ∈ workflowPortHandleIds ∨ startsWith handle "input-" := by decide
      rcases hall port hmem with hout | hin
      · exact houtput hout
      · exact hport hin

end Target

section Migrate
variable {graph : WorkflowGraph}

theorem syncBranch_target (node : WorkflowNode) (target : String) :
    (syncBranch node target).targetNodeId = some target := by
  unfold syncBranch
  cases currentByTarget (node.data.branches.getD []) target with
  | none => rfl
  | some current => rfl

/-- The branches of a synchronized Condition are found by their targets. -/
theorem currentByTarget_sync {node : WorkflowNode} {targets : List String} {target : String}
    (htarget : target ∈ targets) (hne : target ≠ "") :
    currentByTarget (targets.map (syncBranch node)) target = some (syncBranch node target) := by
  rw [currentByTarget, if_neg hne]
  apply find_unique
  · exact List.mem_reverse.mpr (List.mem_map_of_mem htarget)
  · simp [syncBranch_target]
  · intro branch hbranch hsame
    obtain ⟨other, _, rfl⟩ := List.mem_map.mp (List.mem_reverse.mp hbranch)
    rw [syncBranch_target] at hsame
    have hother : other = target := by simpa using hsame
    rw [hother]

/-- A branch that is synchronized again stays. -/
theorem syncBranch_sync {node node' : WorkflowNode} {targets : List String} (hid : node'.id = node.id)
    (hbranches : node'.data.branches = some (targets.map (syncBranch node))) {target : String}
    (htarget : target ∈ targets) : syncBranch node' target = syncBranch node target := by
  conv_lhs => rw [syncBranch]
  rw [hbranches, Option.getD_some, hid]
  by_cases hne : target = ""
  · rw [currentByTarget, if_pos hne, syncBranch, currentByTarget, if_pos hne]
  · rw [currentByTarget_sync htarget hne]
    unfold syncBranch
    cases currentByTarget (node.data.branches.getD []) target with
    | none => rfl
    | some current => rfl

theorem normalizeWorkflowCanvas_self (canvas : Option WorkflowCanvasData) :
    normalizeWorkflowCanvas (normalizeWorkflowCanvas canvas) = normalizeWorkflowCanvas canvas := by
  have hsize (size : Option WorkflowCanvasObjectSize) (width height : ℚ) :
      normalizeCanvasSize (some (normalizeCanvasSize size width height)) width height =
        normalizeCanvasSize size width height := by simp [normalizeCanvasSize]
  have hnote (note : WorkflowCanvasStickyNote) :
      normalizeNote (normalizeNote note) = normalizeNote note := by simp [normalizeNote, hsize]
  have hgroup (group : WorkflowCanvasStageGroup) :
      normalizeGroup (normalizeGroup group) = normalizeGroup group := by
    by_cases htitle : group.title.getD "" = "" <;> simp [normalizeGroup, hsize, htitle]
  cases canvas with
  | none => rfl
  | some canvas =>
    by_cases hempty : canvas.notes = [] ∧ canvas.groups = []
    · simp [normalizeWorkflowCanvas, hempty]
    · have hempty' : ¬ (canvas.notes.map normalizeNote = [] ∧ canvas.groups.map normalizeGroup = []) := by
        simpa using hempty
      simp [normalizeWorkflowCanvas, hempty, hnote, hgroup]

@[simp] theorem syncNode_id (node : WorkflowNode) : (syncNode graph node).id = node.id := by
  unfold syncNode
  split_ifs <;> rfl

@[simp] theorem syncNode_type (node : WorkflowNode) : (syncNode graph node).type = node.type := by
  unfold syncNode
  split_ifs <;> rfl

@[simp] theorem syncNode_position (node : WorkflowNode) :
    (syncNode graph node).position = node.position := by
  unfold syncNode
  split_ifs <;> rfl

theorem migrate_nodes : (migrateWorkflowGraph graph).nodes = (migrateShape graph).nodes.map
    (syncNode (normalizeConditionEdgeTypes (migrateShape graph))) := rfl

theorem migrate_edges : (migrateWorkflowGraph graph).edges =
    (normalizeConditionEdgeTypes (migrateShape graph)).edges.map
      (semanticEdge (migrateWorkflowGraph graph).nodes) := rfl

theorem mem_migrate_edges {edge : WorkflowEdge} (h : edge ∈ (migrateWorkflowGraph graph).edges) :
    ∃ original ∈ graph.edges, edge = semanticEdge (migrateWorkflowGraph graph).nodes
      (conditionEdgeType (conditionNodeIds (migrateShape graph).nodes) (portEdge original)) := by
  obtain ⟨typed, htyped, rfl⟩ := List.mem_map.mp h
  obtain ⟨shaped, hshaped, rfl⟩ := List.mem_map.mp htyped
  obtain ⟨original, horiginal, rfl⟩ := List.mem_map.mp hshaped
  exact ⟨original, horiginal, rfl⟩

theorem conditionNodeIds_sync (graph : WorkflowGraph) (nodes : List WorkflowNode) :
    conditionNodeIds (nodes.map (syncNode graph)) = conditionNodeIds nodes := by
  simp only [conditionNodeIds, List.filter_map, List.map_map]
  have hfilter : (fun node : WorkflowNode => decide (node.type = .condition)) ∘ syncNode graph =
      fun node => decide (node.type = .condition) := by
    funext node
    simp
  rw [hfilter]
  exact List.map_congr_left fun node _ => syncNode_id node

theorem placeNode_self {node : WorkflowNode} (h : node.position.isSome) (index : ℕ) :
    placeNode node index = node := by
  obtain ⟨position, hposition⟩ := Option.isSome_iff_exists.mp h
  rw [placeNode, hposition, Option.getD_some, ← hposition]

theorem migrateShape_migrate : migrateShape (migrateWorkflowGraph graph) = migrateWorkflowGraph graph := by
  have hnodes : ((migrateWorkflowGraph graph).nodes.zipIdx.map fun entry =>
      placeNode entry.1 entry.2) = (migrateWorkflowGraph graph).nodes := by
    apply map_zipIdx_self
    intro entry hentry
    have hmem := List.fst_mem_of_mem_zipIdx hentry
    rw [migrate_nodes] at hmem
    obtain ⟨node, hnode, hsame⟩ := List.mem_map.mp hmem
    obtain ⟨placed, _, rfl⟩ := List.mem_map.mp hnode
    rw [← hsame]
    exact placeNode_self (by rw [syncNode_position]; rfl) _
  have hedges : (migrateWorkflowGraph graph).edges.map portEdge = (migrateWorkflowGraph graph).edges := by
    apply map_self
    intro edge hedge
    obtain ⟨original, _, rfl⟩ := mem_migrate_edges hedge
    have htarget := (targetHandle_stable original.targetHandle).1
    simp only [portEdge, semanticEdge, conditionEdgeType] at htarget ⊢
    rw [normalizeWorkflowPortHandle_self resolve_not_legacy, normalizeWorkflowPortHandle_self htarget]
  have hcanvas : normalizeWorkflowCanvas (migrateWorkflowGraph graph).canvas =
      (migrateWorkflowGraph graph).canvas := normalizeWorkflowCanvas_self graph.canvas
  rw [migrateShape, hnodes, hedges, hcanvas]
  rfl

theorem normalizeConditionEdgeTypes_migrate :
    normalizeConditionEdgeTypes (migrateWorkflowGraph graph) = migrateWorkflowGraph graph := by
  have hids : conditionNodeIds (migrateWorkflowGraph graph).nodes =
      conditionNodeIds (migrateShape graph).nodes := conditionNodeIds_sync _ _
  have hedges : (migrateWorkflowGraph graph).edges.map
      (conditionEdgeType (conditionNodeIds (migrateWorkflowGraph graph).nodes)) =
        (migrateWorkflowGraph graph).edges := by
    apply map_self
    intro edge hedge
    obtain ⟨original, _, rfl⟩ := mem_migrate_edges hedge
    rw [hids]
    simp only [conditionEdgeType, semanticEdge]
    split_ifs <;> simp_all
  rw [normalizeConditionEdgeTypes, hedges]

section Fields
variable {fields : List (String × Json)} {name : String} {value : Json}

theorem mem_setField {entry : String × Json} (h : entry ∈ setField fields (name, some value)) :
    entry = (name, value) ∨ entry ∈ fields ∧ entry.1 ≠ name := by
  unfold setField at h
  simp only at h
  split_ifs at h with hany
  · obtain ⟨other, hother, hsame⟩ := List.mem_map.mp h
    split_ifs at hsame with hname
    · exact .inl hsame.symm
    · exact .inr ⟨hsame ▸ hother, hsame ▸ hname⟩
  · rcases List.mem_append.mp h with hold | hnew
    · refine .inr ⟨hold, fun hname => hany ?_⟩
      exact List.any_eq_true.mpr ⟨entry, hold, by simpa using hname⟩
    · exact .inl (List.mem_singleton.mp hnew)

theorem lookup_setField : (setField fields (name, some value)).lookup name = some value := by
  cases hlookup : (setField fields (name, some value)).lookup name with
  | none =>
    have hnone := List.lookup_eq_none_iff.mp hlookup
    have hmem : (name, value) ∈ setField fields (name, some value) := by
      unfold setField
      simp only
      split_ifs with hany
      · obtain ⟨other, hother, hname⟩ := List.any_eq_true.mp hany
        exact List.mem_map.mpr ⟨other, hother, if_pos (by simpa using hname)⟩
      · exact List.mem_append_right _ (List.mem_singleton_self _)
    simpa using hnone _ hmem
  | some found =>
    obtain ⟨before, after, hsplit, _⟩ := List.lookup_eq_some_iff.mp hlookup
    have hmem : (name, found) ∈ setField fields (name, some value) := by
      rw [hsplit]
      exact List.mem_append_right _ List.mem_cons_self
    rcases mem_setField hmem with hsame | ⟨_, hne⟩
    · rw [(Prod.mk.inj hsame).2]
    · exact absurd rfl hne

/-- A field that has a value is left alone. -/
theorem setField_self : setField (setField fields (name, some value)) (name, some value) =
    setField fields (name, some value) := by
  have hmem : (name, value) ∈ setField fields (name, some value) := by
    obtain ⟨before, after, hsplit, _⟩ := List.lookup_eq_some_iff.mp
      (@lookup_setField fields name value)
    rw [hsplit]
    exact List.mem_append_right _ List.mem_cons_self
  have hany : (setField fields (name, some value)).any (fun other => other.1 == name) = true :=
    List.any_eq_true.mpr ⟨_, hmem, beq_self_eq_true name⟩
  conv_lhs => rw [setField]
  simp only [hany, if_true]
  apply map_self
  intro other hother
  rcases mem_setField hother with rfl | ⟨_, hne⟩
  · exact if_pos rfl
  · exact if_neg hne

end Fields

theorem getConditionBranchTargets_congr {graph' : WorkflowGraph}
    (h : graph'.edges.map (fun edge => (edge.source, edge.target)) =
      graph.edges.map fun edge => (edge.source, edge.target)) (nodeId : String) :
    getConditionBranchTargets graph' nodeId = getConditionBranchTargets graph nodeId := by
  have hpairs (graph : WorkflowGraph) : (graph.edges.filter fun edge => edge.source = nodeId).map (·.target) =
      ((graph.edges.map fun edge => (edge.source, edge.target)).filter fun pair =>
        pair.1 = nodeId).map Prod.snd := by
    rw [List.filter_map, List.map_map]
    rfl
  rw [getConditionBranchTargets, getConditionBranchTargets, hpairs, hpairs, h]

theorem conditionFields_self (others : List (String × Json)) :
    conditionFields (conditionFields others) = conditionFields others := by
  have hkept : ∀ entry ∈ others.filter fun field => field.1 ≠ "conditions" ∧ field.1 ≠ "joiner",
      entry.1 ≠ "conditions" ∧ entry.1 ≠ "joiner" := by
    intro entry hentry
    simpa using (List.mem_filter.mp hentry).2
  unfold conditionFields
  simp only
  generalize others.filter (fun field => field.1 ≠ "conditions" ∧ field.1 ≠ "joiner") = kept at hkept
  have hvalue : (field? kept "routing_mode").getD (.str "single") ≠ .null := by
    cases hfield : field? kept "routing_mode" with
    | none => exact fun h => nomatch h
    | some value => simpa using (Option.filter_eq_some_iff.mp hfield).2
  generalize (field? kept "routing_mode").getD (.str "single") = mode at hvalue
  have hfilter : (setField kept ("routing_mode", some mode)).filter (fun field =>
      field.1 ≠ "conditions" ∧ field.1 ≠ "joiner") = setField kept ("routing_mode", some mode) := by
    refine List.filter_eq_self.mpr fun entry hentry => ?_
    rcases mem_setField hentry with rfl | ⟨hold, _⟩
    · simp
    · simpa using hkept entry hold
  have hfield : field? (setField kept ("routing_mode", some mode)) "routing_mode" = some mode := by
    rw [field?, lookup_setField, Option.filter_some, if_pos (by simpa using hvalue)]
  rw [hfilter, hfield, Option.getD_some]
  exact setField_self

theorem syncNode_syncNode {graph' : WorkflowGraph} (htargets : ∀ nodeId,
      getConditionBranchTargets graph' nodeId = getConditionBranchTargets graph nodeId)
    (node : WorkflowNode) : syncNode graph' (syncNode graph node) = syncNode graph node := by
  by_cases htype : node.type = .condition
  · have hbranches : (syncNode graph node).data.branches =
        some ((getConditionBranchTargets graph node.id).map (syncBranch node)) := by
      rw [syncNode, if_neg (not_not.mpr htype)]
    have hothers : (syncNode graph node).data.others = conditionFields node.data.others := by
      rw [syncNode, if_neg (not_not.mpr htype)]
    have hsame : (getConditionBranchTargets graph' (syncNode graph node).id).map
        (syncBranch (syncNode graph node)) =
          (getConditionBranchTargets graph node.id).map (syncBranch node) := by
      rw [htargets, syncNode_id]
      exact List.map_congr_left fun target htarget =>
        syncBranch_sync (syncNode_id node) hbranches htarget
    conv_lhs => rw [syncNode, if_neg (not_not.mpr ((syncNode_type node).trans htype))]
    rw [hsame, ← hbranches, hothers, conditionFields_self, ← hothers]
  · have hsame : syncNode graph node = node := if_pos htype
    rw [hsame, syncNode, if_pos htype]

theorem semanticEdge_semanticEdge {nodes : List WorkflowNode} {edge : WorkflowEdge}
    (h : resolveWorkflowSemanticTargetHandle
        (some (resolveWorkflowSemanticTargetHandle edge.targetHandle)) =
      resolveWorkflowSemanticTargetHandle edge.targetHandle) :
    semanticEdge nodes (semanticEdge nodes edge) = semanticEdge nodes edge := by
  have hsource := @resolve_resolve (nodeById nodes edge.source) edge
    (some (resolveWorkflowSemanticTargetHandle edge.targetHandle))
  simp only [semanticEdge, h]
  rw [hsource]

theorem syncConditionBranches_migrate :
    syncConditionBranches (migrateWorkflowGraph graph) = migrateWorkflowGraph graph := by
  have htargets (nodeId : String) : getConditionBranchTargets (migrateWorkflowGraph graph) nodeId =
      getConditionBranchTargets (normalizeConditionEdgeTypes (migrateShape graph)) nodeId := by
    apply getConditionBranchTargets_congr
    rw [migrate_edges, List.map_map]
    rfl
  have hnodes : (migrateWorkflowGraph graph).nodes.map (syncNode (migrateWorkflowGraph graph)) =
      (migrateWorkflowGraph graph).nodes := by
    apply map_self
    intro node hnode
    rw [migrate_nodes] at hnode
    obtain ⟨placed, _, rfl⟩ := List.mem_map.mp hnode
    exact syncNode_syncNode htargets placed
  rw [syncConditionBranches, hnodes]

theorem normalizeWorkflowSemanticHandles_migrate :
    normalizeWorkflowSemanticHandles (migrateWorkflowGraph graph) = migrateWorkflowGraph graph := by
  have hedges : (migrateWorkflowGraph graph).edges.map (semanticEdge (migrateWorkflowGraph graph).nodes) =
      (migrateWorkflowGraph graph).edges := by
    apply map_self
    intro edge hedge
    obtain ⟨original, _, rfl⟩ := mem_migrate_edges hedge
    exact semanticEdge_semanticEdge (targetHandle_stable original.targetHandle).2
  rw [normalizeWorkflowSemanticHandles, hedges]

/-- Migrating a graph again changes nothing. -/
theorem migrate_migrate : migrateWorkflowGraph (migrateWorkflowGraph graph) = migrateWorkflowGraph graph := by
  conv_lhs => rw [migrateWorkflowGraph]
  rw [migrateShape_migrate, normalizeConditionEdgeTypes_migrate, syncConditionBranches_migrate,
    normalizeWorkflowSemanticHandles_migrate]

end Migrate

section Canonicalize
variable {graph : WorkflowGraph}

theorem targetBranches_targetBranches (edges : List WorkflowEdge) (node : WorkflowNode) :
    targetBranches edges (targetBranches edges node) = targetBranches edges node := by
  by_cases htype : node.type = .condition
  · have htype' : (targetBranches edges node).type = .condition := (targetBranches_type _).trans htype
    conv_lhs => rw [targetBranches, if_neg (not_not.mpr htype')]
    simp [targetBranches, htype]
  · have hsame : targetBranches edges node = node := if_pos htype
    rw [hsame, hsame]

theorem canonicalNode_stable (edges : List WorkflowEdge) (node : WorkflowNode) (i j : ℕ) :
    canonicalNode (targetBranches edges (canonicalNode node i)) j =
      targetBranches edges (canonicalNode node i) := by
  by_cases htype : node.type = .condition
  · have hbranches : ((targetBranches edges (canonicalNode node i)).data.branches.getD []).zipIdx.map
        (fun entry => { entry.1 with id := some (entry.1.id.getD (defaultBranchId node.id entry.2)) }) =
          (targetBranches edges (canonicalNode node i)).data.branches.getD [] := by
      apply map_zipIdx_self
      intro entry hentry
      obtain ⟨branchId, hid, _⟩ := canonical_branch htype (List.fst_mem_of_mem_zipIdx hentry)
      rw [hid, Option.getD_some, ← hid]
    have hsome : some ((targetBranches edges (canonicalNode node i)).data.branches.getD []) =
        (targetBranches edges (canonicalNode node i)).data.branches := by
      simp [targetBranches, htype]
    have hdata : canonicalData (targetBranches edges (canonicalNode node i)) =
        (targetBranches edges (canonicalNode node i)).data := by
      have hothers : (targetBranches edges (canonicalNode node i)).data.others.filter
          (fun field => field.1 ≠ "selected_skills") =
            (targetBranches edges (canonicalNode node i)).data.others := by
        simp [targetBranches, htype, canonicalNode, canonicalData]
      have htype' : (targetBranches edges (canonicalNode node i)).type = .condition :=
        (targetBranches_type _).trans htype
      have hid : (targetBranches edges (canonicalNode node i)).id = node.id := targetBranches_id _
      rw [canonicalData, if_pos htype', hid, hbranches, hothers, hsome]
    have hposition : (targetBranches edges (canonicalNode node i)).position =
        some (node.position.getD ⟨120 + i * 300, 160⟩) := by
      simp [targetBranches, htype, canonicalNode]
    rw [canonicalNode, hdata, hposition, Option.getD_some, ← hposition]
  · have hsame : targetBranches edges (canonicalNode node i) = canonicalNode node i := if_pos htype
    rw [hsame]
    simp [canonicalNode, canonicalData, htype]

theorem canonicalNodes_canonicalize : canonicalNodes (canonicalizeWorkflowAuthoringGraph graph) =
    (canonicalizeWorkflowAuthoringGraph graph).nodes := by
  apply map_zipIdx_self
  intro entry hentry
  obtain ⟨node, _, i, hnode⟩ := mem_canonicalize_nodes (List.fst_mem_of_mem_zipIdx hentry)
  rw [hnode]
  exact canonicalNode_stable _ _ _ _

theorem nodeById_map {f : WorkflowNode → WorkflowNode} (hf : ∀ node, (f node).id = node.id)
    (nodes : List WorkflowNode) (id : String) :
    nodeById (nodes.map f) id = (nodeById nodes id).map f := by
  rw [nodeById, ← List.map_reverse, List.find?_map, nodeById]
  have hsame : (fun node : WorkflowNode => node.id == id) ∘ f = fun node => node.id == id := by
    funext node
    simp [hf]
  rw [hsame]

/-- The handle of an edge in canonical form stays, on a node with the same handles. -/
theorem resolveSemanticSourceHandle_stable {source source' : WorkflowNode} {edge edge' : WorkflowEdge}
    (htype : source'.type = source.type)
    (hhandle : edge'.sourceHandle = some (resolveSemanticSourceHandle source edge))
    (hedge : edge'.type = (getWorkflowEdgeKindForHandle source
      (resolveSemanticSourceHandle source edge)).getD edge.type) :
    resolveSemanticSourceHandle source' edge' = resolveSemanticSourceHandle source edge := by
  cases hsource : source.type with
  | condition =>
    have hbranch : startsWith (resolveSemanticSourceHandle source edge) "branch:" = true := by
      simp only [resolveSemanticSourceHandle, hsource]
      split
      · rename_i handle hhandle
        exact (Option.filter_eq_some_iff.mp hhandle).2
      · exact startsWith_append _ _
    conv_lhs => rw [resolveSemanticSourceHandle]
    simp only [htype, hsource, hhandle, Option.filter_some, hbranch, if_true]
  | humanGate =>
    have happrove : getWorkflowEdgeKindForHandle source "approve" = some .approval := by
      rw [getWorkflowEdgeKindForHandle_eq_some]
      refine ⟨⟨"approve", .approve, "Approve", none⟩, ?_, rfl, rfl⟩
      simp only [getWorkflowNodeSourceHandles, hsource]
      split_ifs
      · exact List.mem_cons_self
      · exact List.mem_cons_self
    simp only [resolveSemanticSourceHandle, hsource] at hedge ⊢
    by_cases hreject : edge.type = .rejection
    · have hkind : (getWorkflowEdgeKindForHandle source "reject").getD .rejection = .rejection := by
        cases hkind : getWorkflowEdgeKindForHandle source "reject" with
        | none => rfl
        | some kind =>
          obtain ⟨handle, hhandle, hid, hedgeKind⟩ := getWorkflowEdgeKindForHandle_eq_some.mp hkind
          have hplain : ∀ handle ∈ plainHandles, handle.id = "reject" →
              edgeKind handle.kind = .rejection := by decide
          have hnode : source.type ≠ .condition := by simp [hsource]
          rw [← hedgeKind, hplain handle (plainHandle hnode hhandle) hid, Option.getD_some]
      simp only [hreject, if_true, hkind] at hedge
      simp [htype, hsource, hreject, hedge]
    · simp only [hreject, if_false, happrove, Option.getD_some] at hedge
      simp [htype, hsource, hreject, hedge]
  | arena => simp only [resolveSemanticSourceHandle, htype, hsource]
  | start | «end» | agent | transform => simp only [resolveSemanticSourceHandle, htype, hsource]

theorem kindForHandle_congr {node node' : WorkflowNode}
    (h : getWorkflowNodeSourceHandles node' = getWorkflowNodeSourceHandles node) (handle : String) :
    getWorkflowEdgeKindForHandle node' handle = getWorkflowEdgeKindForHandle node handle := by
  rw [getWorkflowEdgeKindForHandle, getWorkflowEdgeKindForHandle, h]

theorem canonicalTarget_stable (nodes : List WorkflowNode) {edge : WorkflowEdge} {source : WorkflowNode}
    (hsource : nodeById nodes edge.source = some source) :
    (match (canonicalEdge nodes edge).targetHandle with
      | none => some "input"
      | some handle =>
        if handle = "" ∨ handle ∈ legacyPositionalHandleIds then some "input" else some handle) =
      (canonicalEdge nodes edge).targetHandle := by
  have hinput : ¬ ("input" = "" ∨ "input" ∈ legacyPositionalHandleIds) := by decide
  simp only [canonicalEdge, hsource]
  cases edge.targetHandle with
  | none => exact if_neg hinput
  | some handle =>
    by_cases hlegacy : handle = "" ∨ handle ∈ legacyPositionalHandleIds
    · simp only [hlegacy, if_true, hinput, if_false]
    · simp only [hlegacy, if_false]

theorem canonicalEdge_stable (nodes : List WorkflowNode) (edges : List WorkflowEdge)
    (edge : WorkflowEdge) :
    canonicalEdge (nodes.map (targetBranches edges)) (canonicalEdge nodes edge) =
      canonicalEdge nodes edge := by
  have hfind := nodeById_map (fun node => @targetBranches_id node edges) nodes edge.source
  conv_lhs => rw [canonicalEdge, (canonicalEdge_joins nodes).2.1, hfind]
  cases hsource : nodeById nodes edge.source with
  | none => rfl
  | some source =>
    have hedge : canonicalEdge nodes edge = { edge with
        sourceHandle := some (resolveSemanticSourceHandle source edge)
        targetHandle := (canonicalEdge nodes edge).targetHandle
        type := (getWorkflowEdgeKindForHandle source
          (resolveSemanticSourceHandle source edge)).getD edge.type } := by
      simp only [canonicalEdge, hsource]
    have hhandle : (canonicalEdge nodes edge).sourceHandle =
        some (resolveSemanticSourceHandle source edge) := by rw [hedge]
    have htype : (canonicalEdge nodes edge).type = (getWorkflowEdgeKindForHandle source
        (resolveSemanticSourceHandle source edge)).getD edge.type := by rw [hedge]
    have hresolve := resolveSemanticSourceHandle_stable
      (targetBranches_type edges : (targetBranches edges source).type = source.type) hhandle htype
    have hkind : (getWorkflowEdgeKindForHandle source (resolveSemanticSourceHandle source edge)).getD
        (canonicalEdge nodes edge).type = (canonicalEdge nodes edge).type := by
      rw [htype]
      cases getWorkflowEdgeKindForHandle source (resolveSemanticSourceHandle source edge) with
      | none => rfl
      | some kind => rfl
    have htarget := canonicalTarget_stable nodes hsource
    have hjoins := (@canonicalEdge_joins edge nodes).2.1
    simp only [Option.map_some, hresolve, kindForHandle_congr (handles_targetBranches edges), hkind]
    rw [← hhandle, ← hjoins]
    cases hold : (canonicalEdge nodes edge).targetHandle with
    | none =>
      rw [hold] at htarget
      cases htarget
    | some handle =>
      rw [hold] at htarget
      simp only at htarget ⊢
      rw [htarget, ← hold]

/-- Canonicalizing a graph again changes nothing. -/
theorem canonicalize_canonicalize :
    canonicalizeWorkflowAuthoringGraph (canonicalizeWorkflowAuthoringGraph graph) =
      canonicalizeWorkflowAuthoringGraph graph := by
  have hedges : canonicalEdges (canonicalizeWorkflowAuthoringGraph graph) = canonicalEdges graph := by
    rw [canonicalEdges, canonicalNodes_canonicalize, canonicalize_nodes, canonicalize_edges]
    conv_rhs => rw [canonicalEdges]
    rw [canonicalEdges, List.map_map]
    exact List.map_congr_left fun edge _ => canonicalEdge_stable _ _ edge
  have hnodes : (canonicalizeWorkflowAuthoringGraph (canonicalizeWorkflowAuthoringGraph graph)).nodes =
      (canonicalizeWorkflowAuthoringGraph graph).nodes := by
    rw [canonicalize_nodes, hedges, canonicalNodes_canonicalize]
    apply map_self
    intro node hnode
    obtain ⟨original, _, i, rfl⟩ := mem_canonicalize_nodes hnode
    exact targetBranches_targetBranches _ _
  have hedges' : (canonicalizeWorkflowAuthoringGraph (canonicalizeWorkflowAuthoringGraph graph)).edges =
      (canonicalizeWorkflowAuthoringGraph graph).edges := hedges
  conv_lhs => rw [canonicalizeWorkflowAuthoringGraph]
  change { canonicalizeWorkflowAuthoringGraph graph with
    version := workflowGraphVersion
    nodes := (canonicalizeWorkflowAuthoringGraph (canonicalizeWorkflowAuthoringGraph graph)).nodes
    edges := (canonicalizeWorkflowAuthoringGraph (canonicalizeWorkflowAuthoringGraph graph)).edges } =
      canonicalizeWorkflowAuthoringGraph graph
  rw [hnodes, hedges']
  rfl

end Canonicalize

end VibeKanban.WebCore
