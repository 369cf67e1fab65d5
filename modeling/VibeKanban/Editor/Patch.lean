import VibeKanban.Lib.Splice

/-! Patches between two versions of a graph: what differs in each node and edge with its place, and
the metadata. A patch and its inverse lead from one version to the other and back. -/
namespace VibeKanban.Editor
open Lib

structure EntityPatch (T : Type) where
  id : String
  before : Option T
  after : Option T
  beforeIndex : Option ℕ
  afterIndex : Option ℕ
  deriving DecidableEq, Repr

section Entities
variable {T : Type} (ident : T → String)

/-- The last item with an id, and its place. -/
def entryAt (items : List T) (id : String) : Option (T × ℕ) :=
  items.zipIdx.reverse.find? fun entry => ident entry.1 == id

/-- Both versions of the item with an id, with their places. -/
def entityChange (before after : List T) (id : String) : EntityPatch T :=
  let previous := entryAt ident before id
  let next := entryAt ident after id
  ⟨id, previous.map Prod.fst, next.map Prod.fst, previous.map Prod.snd, next.map Prod.snd⟩

/-- Items are equal when their texts are. -/
def diffEntities [DecidableEq T] (before after : List T) : List (EntityPatch T) :=
  (((before ++ after).map ident).eraseDups.filter fun id =>
    (entryAt ident before id).map Prod.fst ≠ (entryAt ident after id).map Prod.fst).map
      (entityChange ident before after)

def EntityPatch.invert (change : EntityPatch T) : EntityPatch T :=
  ⟨change.id, change.after, change.before, change.afterIndex, change.beforeIndex⟩

/-- The items without the changed ones; then these are inserted, the lowest place first. -/
def applyEntityPatch (current : List T) (changes : List (EntityPatch T)) : List T :=
  let result := current.filter fun item => ident item ∉ changes.map (·.id)
  let insertions := (changes.filterMap fun change =>
    change.after.map fun item => (item, change.afterIndex)).insertionSort fun left right =>
      left.2.getD result.length ≤ right.2.getD result.length
  spliceWith (fun result insertion => insertion.2.getD result.length) Prod.fst result insertions

variable {ident}

theorem entryAt_mem {items : List T} {id : String} {entry : T × ℕ}
    (h : entryAt ident items id = some entry) :
    entry ∈ items.zipIdx ∧ ident entry.1 = id :=
  ⟨List.mem_reverse.mp (List.mem_of_find?_eq_some h), by simpa using List.find?_some h⟩

theorem entryAt_eq_some {items : List T} (hunique : (items.map ident).Nodup) {id : String}
    {entry : T × ℕ} : entryAt ident items id = some entry ↔
      entry ∈ items.zipIdx ∧ ident entry.1 = id := by
  refine ⟨entryAt_mem, fun ⟨hentry, hid⟩ => ?_⟩
  have hsome : (entryAt ident items id).isSome := by
    rw [entryAt, List.find?_isSome]
    exact ⟨entry, List.mem_reverse.mpr hentry, by simpa using hid⟩
  obtain ⟨found, hfound⟩ := Option.isSome_iff_exists.mp hsome
  obtain ⟨hmem, hsame⟩ := entryAt_mem hfound
  have hnodup : (items.zipIdx.map fun entry => ident entry.1).Nodup := by
    have hmap : items.zipIdx.map (fun entry => ident entry.1) =
        (items.zipIdx.map Prod.fst).map ident := by rw [List.map_map]; rfl
    rw [hmap, List.zipIdx_map_fst]
    exact hunique
  rw [hfound, List.inj_on_of_nodup_map hnodup hmem hentry (hsame.trans hid.symm)]

theorem entryAt_isSome {items : List T} {id : String} :
    (entryAt ident items id).isSome ↔ id ∈ items.map ident := by
  rw [entryAt, List.find?_isSome]
  constructor
  · rintro ⟨entry, hentry, hid⟩
    have hmem := List.fst_mem_of_mem_zipIdx (List.mem_reverse.mp hentry)
    exact List.mem_map.mpr ⟨entry.1, hmem, by simpa using hid⟩
  · intro hid
    obtain ⟨item, hitem, rfl⟩ := List.mem_map.mp hid
    obtain ⟨i, hi, rfl⟩ := List.mem_iff_getElem.mp hitem
    exact ⟨(items[i], i), List.mem_reverse.mpr (List.mk_mem_zipIdx_iff_getElem?.mpr (by simp)),
      by simp⟩

/-- Changes that name every differing item of a list with its place lead to that list. -/
theorem applyEntityPatch_eq {target current : List T} {changes : List (EntityPatch T)}
    (hunique : (target.map ident).Nodup) (hids : (changes.map (·.id)).Nodup)
    (hafter : ∀ change ∈ changes, change.after = (entryAt ident target change.id).map Prod.fst ∧
      change.afterIndex = (entryAt ident target change.id).map Prod.snd)
    (hrest : current.filter (fun item => ident item ∉ changes.map (·.id)) =
      target.filter fun item => ident item ∉ changes.map (·.id)) :
    applyEntityPatch ident current changes = target := by
  let changed (item : T) : Bool := ident item ∈ changes.map (·.id)
  let entries := target.zipIdx.filter fun entry => changed entry.1
  let place (entry : T × ℕ) : T × Option ℕ := (entry.1, some entry.2)
  have hinsertions : (changes.filterMap fun change =>
      change.after.map fun item => (item, change.afterIndex)) =
        ((changes.map (·.id)).filterMap (entryAt ident target)).map place := by
    rw [List.filterMap_map, List.map_filterMap]
    refine List.filterMap_congr fun change hchange => ?_
    obtain ⟨hitem, hindex⟩ := hafter change hchange
    rw [hitem, hindex, Function.comp_apply]
    cases entryAt ident target change.id with
    | none => rfl
    | some entry => rfl
  have hperm : ((changes.map (·.id)).filterMap (entryAt ident target)).Perm entries := by
    refine (List.perm_ext_iff_of_nodup ?_ ?_).mpr fun entry => ?_
    · refine hids.filterMap fun id id' entry hid hid' => ?_
      exact (entryAt_mem hid).2.symm.trans (entryAt_mem hid').2
    · exact (List.Nodup.of_map Prod.snd (by
        rw [List.zipIdx_map_snd]
        exact List.nodup_range' _)).filter _
    · simp only [List.mem_filterMap, entryAt_eq_some hunique, entries, List.mem_filter, changed,
        decide_eq_true_eq]
      constructor
      · rintro ⟨id, hid, hentry, rfl⟩
        exact ⟨hentry, hid⟩
      · rintro ⟨hentry, hid⟩
        exact ⟨ident entry.1, hid, hentry, rfl⟩
  have hsorted (n : ℕ) : (((changes.map (·.id)).filterMap (entryAt ident target)).map
      place).insertionSort (fun left right => left.2.getD n ≤ right.2.getD n) =
        entries.map place := by
    have htrans : IsTrans (T × Option ℕ) fun left right => left.2.getD n ≤ right.2.getD n :=
      ⟨fun _ _ _ => Nat.le_trans⟩
    have htotal : Std.Total fun left right : T × Option ℕ => left.2.getD n ≤ right.2.getD n :=
      ⟨fun _ _ => Nat.le_total _ _⟩
    have hsame := (List.perm_insertionSort
      (fun left right : T × Option ℕ => left.2.getD n ≤ right.2.getD n) _).trans (hperm.map place)
    refine List.Perm.eq_of_pairwise ?_ (List.pairwise_insertionSort _ _) ?_ hsame
    · intro a b ha hb hab hba
      obtain ⟨left, hleft, rfl⟩ := List.mem_map.mp (hsame.mem_iff.mp ha)
      obtain ⟨right, hright, rfl⟩ := List.mem_map.mp hb
      have hplace : left.2 = right.2 := Nat.le_antisymm hab hba
      have hl := List.mem_zipIdx_iff_getElem?.mp (List.mem_filter.mp hleft).1
      have hr := List.mem_zipIdx_iff_getElem?.mp (List.mem_filter.mp hright).1
      rw [hplace, hr] at hl
      simp [place, hplace, Option.some.inj hl]
    · refine List.pairwise_map.mpr (((zipIdx_sorted target 0).filter _).imp ?_)
      exact fun hlt => Nat.le_of_lt hlt
  have hkept : current.filter (fun item => ident item ∉ changes.map (·.id)) =
      target.filter fun item => !changed item := by
    rw [hrest]
    exact List.filter_congr fun item _ => by simp only [changed, decide_not]
  simp only [applyEntityPatch, hinsertions, hsorted, hkept, spliceWith]
  rw [List.foldl_map]
  exact spliceAll_restore changed target

theorem invert_ids (changes : List (EntityPatch T)) :
    (changes.map EntityPatch.invert).map (·.id) = changes.map (·.id) := by
  rw [List.map_map]
  rfl

theorem nodup_eraseDups {l : List String} : l.eraseDups.Nodup := by
  induction hlength : l.length using Nat.strong_induction_on generalizing l with
  | _ n ih =>
    cases l with
    | nil => exact List.nodup_nil
    | cons a rest =>
      rw [List.eraseDups_cons]
      have hshort : (rest.filter fun b => !b == a).length < n := by
        have hle := List.length_filter_le (fun b => !b == a) rest
        rw [List.length_cons] at hlength
        omega
      refine List.nodup_cons.mpr ⟨fun hmem => ?_, ih _ hshort rfl⟩
      simpa using (List.mem_filter.mp (List.mem_eraseDups.mp hmem)).2

/-- The items that a patch inserts, with their ids. -/
theorem insertion_ident {changes : List (EntityPatch T)}
    (h : ∀ change ∈ changes, ∀ item ∈ change.after, ident item = change.id) :
    ∀ insertion ∈ changes.filterMap fun change =>
        change.after.map fun item => (item, change.afterIndex),
      ident insertion.1 ∈ changes.map (·.id) := by
  intro insertion hinsertion
  obtain ⟨change, hchange, hsome⟩ := List.mem_filterMap.mp hinsertion
  obtain ⟨item, hitem, rfl⟩ := Option.map_eq_some_iff.mp hsome
  rw [h change hchange item hitem]
  exact List.mem_map_of_mem hchange

/-- A patch leaves the items alone that it does not name. -/
theorem applyEntityPatch_rest {changes : List (EntityPatch T)}
    (h : ∀ change ∈ changes, ∀ item ∈ change.after, ident item = change.id) (current : List T) :
    (applyEntityPatch ident current changes).filter
        (fun item => ident item ∉ changes.map (·.id)) =
      current.filter fun item => ident item ∉ changes.map (·.id) := by
  rw [applyEntityPatch, filter_spliceWith, List.filter_filter]
  · exact List.filter_congr fun item _ => Bool.and_self _
  · intro insertion hinsertion
    have hid := insertion_ident h insertion ((List.mem_insertionSort _).mp hinsertion)
    simpa using hid

theorem applyEntityPatch_perm (current : List T) (changes : List (EntityPatch T)) :
    (applyEntityPatch ident current changes).Perm
      (changes.filterMap (·.after) ++
        current.filter fun item => ident item ∉ changes.map (·.id)) := by
  refine (spliceWith_perm _ _ _ _).trans (List.Perm.append_right _ ?_)
  refine ((List.perm_insertionSort _ _).map Prod.fst).trans (.of_eq ?_)
  rw [List.map_filterMap]
  refine List.filterMap_congr fun change _ => ?_
  cases change.after with
  | none => rfl
  | some item => rfl

theorem entryAt_fst {items : List T} (hunique : (items.map ident).Nodup) {id : String} {item : T} :
    (entryAt ident items id).map Prod.fst = some item ↔ item ∈ items ∧ ident item = id := by
  rw [Option.map_eq_some_iff]
  constructor
  · rintro ⟨entry, hentry, rfl⟩
    obtain ⟨hmem, hid⟩ := entryAt_mem hentry
    exact ⟨List.fst_mem_of_mem_zipIdx hmem, hid⟩
  · rintro ⟨hitem, hid⟩
    obtain ⟨i, hi, rfl⟩ := List.mem_iff_getElem.mp hitem
    refine ⟨(items[i], i), (entryAt_eq_some hunique).mpr ⟨?_, hid⟩, rfl⟩
    exact List.mk_mem_zipIdx_iff_getElem?.mpr (List.getElem?_eq_getElem hi)

theorem entityChange_ident (before after : List T) (id : String) :
    (∀ item ∈ (entityChange ident before after id).after, ident item = id) ∧
      ∀ item ∈ (entityChange ident before after id).before, ident item = id := by
  constructor
  · intro item hitem
    obtain ⟨entry, hentry, rfl⟩ := Option.map_eq_some_iff.mp hitem
    exact (entryAt_mem hentry).2
  · intro item hitem
    obtain ⟨entry, hentry, rfl⟩ := Option.map_eq_some_iff.mp hitem
    exact (entryAt_mem hentry).2

variable [DecidableEq T] {before after : List T}

theorem diffEntities_nodup : ((diffEntities ident before after).map (·.id)).Nodup := by
  rw [diffEntities, List.map_map]
  exact (List.map_id' _).symm ▸ nodup_eraseDups.filter _

/-- Each change of a difference holds both versions of its item. -/
theorem mem_diffEntities {change : EntityPatch T} (h : change ∈ diffEntities ident before after) :
    change = entityChange ident before after change.id := by
  obtain ⟨id, _, rfl⟩ := List.mem_map.mp h
  rfl

/-- The ids of the items that differ. -/
theorem mem_diffEntities_ids {id : String} :
    id ∈ (diffEntities ident before after).map (·.id) ↔
      (entryAt ident before id).map Prod.fst ≠ (entryAt ident after id).map Prod.fst := by
  rw [diffEntities, List.map_map]
  constructor
  · intro hid
    obtain ⟨id', hmem, rfl⟩ := List.mem_map.mp hid
    have hdiffer := (List.mem_filter.mp hmem).2
    simpa [entityChange] using hdiffer
  · intro hdiffer
    refine List.mem_map.mpr ⟨id, List.mem_filter.mpr ⟨List.mem_eraseDups.mpr ?_, by simpa using hdiffer⟩, rfl⟩
    rw [List.map_append, List.mem_append, ← entryAt_isSome, ← entryAt_isSome]
    by_contra hnone
    push Not at hnone
    obtain ⟨hbefore, hafter⟩ := hnone
    rw [Option.not_isSome_iff_eq_none.mp hbefore,
      Option.not_isSome_iff_eq_none.mp hafter] at hdiffer
    exact hdiffer rfl

theorem diffEntities_ident (before after : List T) :
    ∀ change ∈ diffEntities ident before after, ∀ item ∈ change.after, ident item = change.id := by
  intro change hchange item hitem
  rw [mem_diffEntities hchange] at hitem
  exact (entityChange_ident before after change.id).1 item hitem

/-- The inverse of a difference restores the items with their places. -/
theorem applyEntityPatch_undo (hunique : (before.map ident).Nodup) (after : List T) :
    applyEntityPatch ident (applyEntityPatch ident before (diffEntities ident before after))
      ((diffEntities ident before after).map EntityPatch.invert) = before := by
  apply applyEntityPatch_eq hunique
  · rw [invert_ids]
    exact diffEntities_nodup
  · intro change hchange
    obtain ⟨original, horiginal, rfl⟩ := List.mem_map.mp hchange
    rw [mem_diffEntities horiginal]
    exact ⟨rfl, rfl⟩
  · rw [invert_ids]
    exact applyEntityPatch_rest (diffEntities_ident before after) before

theorem applyEntityPatch_nodup (hunique : (before.map ident).Nodup) (after : List T) :
    ((applyEntityPatch ident before (diffEntities ident before after)).map ident).Nodup := by
  have hchanged : (applyEntityPatch ident before (diffEntities ident before after)).Perm _ :=
    applyEntityPatch_perm before (diffEntities ident before after)
  have hperm := hchanged.map ident
  rw [hperm.nodup_iff, List.map_append]
  have hinserted : (((diffEntities ident before after).filterMap (·.after)).map ident).Sublist
      ((diffEntities ident before after).map (·.id)) := by
    have hident : ∀ change ∈ diffEntities ident before after, _ := diffEntities_ident before after
    generalize diffEntities ident before after = changes at hident
    induction changes with
    | nil => exact .slnil
    | cons change rest ih =>
      obtain ⟨hchange, hrest⟩ := List.forall_mem_cons.mp hident
      cases hafter : change.after with
      | none =>
        rw [List.filterMap_cons_none hafter, List.map_cons]
        exact (ih hrest).cons _
      | some item =>
        rw [List.filterMap_cons_some hafter, List.map_cons, List.map_cons, hchange item hafter]
        exact (ih hrest).cons_cons _
  refine List.nodup_append.mpr ⟨hinserted.nodup diffEntities_nodup,
    hunique.sublist ((List.filter_sublist).map ident), ?_⟩
  rintro id hid _ hkept rfl
  obtain ⟨item, hitem, hsame⟩ := List.mem_map.mp hkept
  have hnot := (List.mem_filter.mp hitem).2
  rw [decide_eq_true_eq, hsame] at hnot
  exact hnot (hinserted.subset hid)

/-- A difference leads to the items of the other version. -/
theorem mem_applyEntityPatch (hbefore : (before.map ident).Nodup) (hafter : (after.map ident).Nodup)
    {item : T} :
    item ∈ applyEntityPatch ident before (diffEntities ident before after) ↔ item ∈ after := by
  rw [(applyEntityPatch_perm _ _).mem_iff, List.mem_append, List.mem_filter, decide_eq_true_eq,
    mem_diffEntities_ids]
  have hitem : item ∈ after ↔ (entryAt ident after (ident item)).map Prod.fst = some item := by
    simp [entryAt_fst hafter]
  have hitem' : item ∈ before ↔ (entryAt ident before (ident item)).map Prod.fst = some item := by
    simp [entryAt_fst hbefore]
  rw [hitem, hitem']
  constructor
  · rintro (hchange | ⟨hold, hsame⟩)
    · obtain ⟨change, hchange, hnew⟩ := List.mem_filterMap.mp hchange
      have hid := diffEntities_ident before after change hchange item hnew
      rw [mem_diffEntities hchange] at hnew
      rw [hid]
      exact hnew
    · rw [← not_not.mp hsame]
      exact hold
  · intro hnew
    by_cases hsame : (entryAt ident before (ident item)).map Prod.fst =
        (entryAt ident after (ident item)).map Prod.fst
    · exact .inr ⟨hsame.trans hnew, not_not.mpr hsame⟩
    · obtain ⟨change, hchange, hid⟩ := List.mem_map.mp (mem_diffEntities_ids.mpr hsame)
      refine .inl (List.mem_filterMap.mpr ⟨change, hchange, ?_⟩)
      rw [mem_diffEntities hchange, hid]
      exact hnew

end Entities

/-- A patch of the metadata, both versions, and of the nodes and edges. -/
structure DraftPatch (M N E : Type) where
  metadata : Option (M × M)
  nodes : List (EntityPatch N)
  edges : List (EntityPatch E)

/-- The parts of a graph that patches work on, and how a graph is built from them. -/
structure GraphParts (G M N E : Type) where
  metadata : G → M
  nodes : G → List N
  edges : G → List E
  nodeId : N → String
  edgeId : E → String
  build : M → List N → List E → G
  metadata_build : ∀ m ns es, metadata (build m ns es) = m
  nodes_build : ∀ m ns es, nodes (build m ns es) = ns
  edges_build : ∀ m ns es, edges (build m ns es) = es

namespace GraphParts
variable {G M N E : Type} (parts : GraphParts G M N E)

section Patch
variable [DecidableEq M] [DecidableEq N] [DecidableEq E]

def diffGraph (before after : G) : DraftPatch M N E where
  metadata :=
    if parts.metadata before = parts.metadata after then none
    else some (parts.metadata before, parts.metadata after)
  nodes := diffEntities parts.nodeId (parts.nodes before) (parts.nodes after)
  edges := diffEntities parts.edgeId (parts.edges before) (parts.edges after)

end Patch

def invertPatch (patch : DraftPatch M N E) : DraftPatch M N E where
  metadata := patch.metadata.map Prod.swap
  nodes := patch.nodes.map EntityPatch.invert
  edges := patch.edges.map EntityPatch.invert

def applyPatch (graph : G) (patch : DraftPatch M N E) : G :=
  parts.build ((patch.metadata.map Prod.snd).getD (parts.metadata graph))
    (applyEntityPatch parts.nodeId (parts.nodes graph) patch.nodes)
    (applyEntityPatch parts.edgeId (parts.edges graph) patch.edges)

/-- Equal metadata, nodes and edges, each at its place. -/
structure Same (graph graph' : G) : Prop where
  metadata : parts.metadata graph = parts.metadata graph'
  nodes : parts.nodes graph = parts.nodes graph'
  edges : parts.edges graph = parts.edges graph'

/-- No two nodes and no two edges have one id. -/
structure UniqueIds (graph : G) : Prop where
  nodes : ((parts.nodes graph).map parts.nodeId).Nodup
  edges : ((parts.edges graph).map parts.edgeId).Nodup

variable {parts}

theorem Same.refl (graph : G) : parts.Same graph graph := ⟨rfl, rfl, rfl⟩

theorem Same.symm {graph graph' : G} (h : parts.Same graph graph') : parts.Same graph' graph :=
  ⟨h.metadata.symm, h.nodes.symm, h.edges.symm⟩

theorem Same.trans {a b c : G} (hab : parts.Same a b) (hbc : parts.Same b c) : parts.Same a c :=
  ⟨hab.metadata.trans hbc.metadata, hab.nodes.trans hbc.nodes, hab.edges.trans hbc.edges⟩

theorem Same.applyPatch {graph graph' : G} (h : parts.Same graph graph') (patch : DraftPatch M N E) :
    parts.Same (parts.applyPatch graph patch) (parts.applyPatch graph' patch) := by
  simp only [GraphParts.applyPatch, h.metadata, h.nodes, h.edges]
  exact .refl _

theorem UniqueIds.of_same {graph graph' : G} (h : parts.UniqueIds graph)
    (hsame : parts.Same graph graph') : parts.UniqueIds graph' :=
  ⟨hsame.nodes ▸ h.nodes, hsame.edges ▸ h.edges⟩

variable [DecidableEq M] [DecidableEq N] [DecidableEq E]

/-- The inverse of a difference leads back. -/
theorem applyPatch_undo {before : G} (h : parts.UniqueIds before) (after : G) :
    parts.Same (parts.applyPatch (parts.applyPatch before (parts.diffGraph before after))
      (invertPatch (parts.diffGraph before after))) before := by
  constructor
  · simp only [applyPatch, parts.metadata_build, invertPatch, diffGraph]
    split_ifs with hsame
    · rfl
    · rfl
  · simp only [applyPatch, parts.nodes_build]
    exact applyEntityPatch_undo h.nodes _
  · simp only [applyPatch, parts.edges_build]
    exact applyEntityPatch_undo h.edges _

theorem UniqueIds.applyPatch {before : G} (h : parts.UniqueIds before) (after : G) :
    parts.UniqueIds (parts.applyPatch before (parts.diffGraph before after)) := by
  constructor
  · simp only [GraphParts.applyPatch, parts.nodes_build]
    exact applyEntityPatch_nodup h.nodes _
  · simp only [GraphParts.applyPatch, parts.edges_build]
    exact applyEntityPatch_nodup h.edges _

end GraphParts

end VibeKanban.Editor
