import Mathlib.Data.List.Dedup
import Mathlib.Data.List.Sort
import Mathlib.Logic.Relation

/-! Ordered sets as sorted lists, and the saturation loop that closes such a set under a
filtered list of edges. -/
namespace VibeKanban.Lib

section Ordered
variable {α : Type*} [LinearOrder α]

/-- The elements of a list in increasing order, each once. -/
def ordered (l : List α) : List α := l.dedup.insertionSort (· ≤ ·)

@[simp] theorem mem_ordered {l : List α} {a : α} : a ∈ ordered l ↔ a ∈ l := by
  simp [ordered, (List.perm_insertionSort (· ≤ ·) l.dedup).mem_iff]

theorem nodup_ordered (l : List α) : (ordered l).Nodup :=
  (List.perm_insertionSort (· ≤ ·) l.dedup).nodup_iff.mpr l.nodup_dedup

/-- Adding elements to a duplicate-free list keeps its size exactly when nothing was new. -/
theorem length_ordered_append_eq_iff {s t : List α} (hs : s.Nodup) :
    (ordered (s ++ t)).length = s.length ↔ t ⊆ s := by
  have hsub : s.Subperm (ordered (s ++ t)) :=
    List.subperm_of_subset hs fun a ha => mem_ordered.mpr (List.mem_append_left t ha)
  constructor
  · intro h a ha
    have hp := hsub.perm_of_length_le h.le
    exact hp.mem_iff.mpr (mem_ordered.mpr (List.mem_append_right s ha))
  · intro h
    refine le_antisymm ?_ hsub.length_le
    refine (List.subperm_of_subset (nodup_ordered (s ++ t)) ?_).length_le
    intro a ha
    rcases List.mem_append.mp (mem_ordered.mp ha) with hl | hr
    · exact hl
    · exact h hr

end Ordered

section Saturate
variable {ι ε : Type*} [LinearOrder ι] (edges : List ε) (source target : ε → ι)
  (follows : ε → Bool)

/-- The targets of the followed edges that leave `s`. -/
def frontier (s : List ι) : List ι :=
  (edges.filter fun e => decide (source e ∈ s) && follows e).map target

/-- Add the frontier until the size no longer changes. -/
def saturate : ℕ → List ι → List ι
  | 0, s => s
  | fuel + 1, s =>
    let next := ordered (s ++ frontier edges source target follows s)
    if next.length = s.length then next else saturate fuel next

/-- One followed edge. -/
def Follows (a b : ι) : Prop := ∃ e ∈ edges, follows e = true ∧ source e = a ∧ target e = b

variable {edges source target follows}

theorem mem_frontier {s : List ι} {b : ι} :
    b ∈ frontier edges source target follows s ↔
      ∃ a ∈ s, Follows edges source target follows a b := by
  simp only [frontier, List.mem_map, List.mem_filter, Bool.and_eq_true, decide_eq_true_eq,
    Follows]
  constructor
  · rintro ⟨e, ⟨he, hs, hf⟩, rfl⟩
    exact ⟨source e, hs, e, he, hf, rfl, rfl⟩
  · rintro ⟨a, ha, e, he, hf, rfl, rfl⟩
    exact ⟨e, ⟨he, ha, hf⟩, rfl⟩

/-- The edges whose target is still missing; every growing round removes one. -/
private def missing (edges : List ε) (target : ε → ι) (s : List ι) : ℕ :=
  (edges.filter fun e => decide (target e ∉ s)).length

private theorem missing_lt (edges : List ε) (target : ε → ι) {s t : List ι} (hst : s ⊆ t)
    {e : ε} (he : e ∈ edges) (hs : target e ∉ s) (ht : target e ∈ t) :
    missing edges target t < missing edges target s := by
  unfold missing
  have hsub : (edges.filter fun e => decide (target e ∉ t)).Sublist
      (edges.filter fun e => decide (target e ∉ s)) := by
    apply List.monotone_filter_right
    intro e h
    simp only [decide_eq_true_eq] at h ⊢
    exact fun hm => h (hst hm)
  refine lt_of_le_of_ne hsub.length_le fun h => ?_
  have heq := hsub.eq_of_length h
  have hmem : e ∈ edges.filter fun e => decide (target e ∉ s) := by simp [he, hs]
  rw [← heq] at hmem
  simp [ht] at hmem

private theorem subset_saturate (fuel : ℕ) (s : List ι) :
    s ⊆ saturate edges source target follows fuel s := by
  induction fuel generalizing s with
  | zero => exact List.Subset.refl s
  | succ fuel ih =>
    have hn : s ⊆ ordered (s ++ frontier edges source target follows s) :=
      fun a ha => mem_ordered.mpr (List.mem_append_left _ ha)
    simp only [saturate]
    split_ifs
    · exact hn
    · exact fun a ha => ih _ (hn ha)

private theorem saturate_reachable (fuel : ℕ) {s : List ι} {b : ι}
    (hb : b ∈ saturate edges source target follows fuel s) :
    ∃ a ∈ s, Relation.ReflTransGen (Follows edges source target follows) a b := by
  induction fuel generalizing s with
  | zero => exact ⟨b, hb, .refl⟩
  | succ fuel ih =>
    have hn : ∀ c ∈ ordered (s ++ frontier edges source target follows s),
        ∃ a ∈ s, Relation.ReflTransGen (Follows edges source target follows) a c := by
      intro c hc
      rcases List.mem_append.mp (mem_ordered.mp hc) with hl | hr
      · exact ⟨c, hl, .refl⟩
      · obtain ⟨a, ha, hac⟩ := mem_frontier.mp hr
        exact ⟨a, ha, .single hac⟩
    simp only [saturate] at hb
    split_ifs at hb
    · exact hn b hb
    · obtain ⟨c, hc, hcb⟩ := ih hb
      obtain ⟨a, ha, hac⟩ := hn c hc
      exact ⟨a, ha, hac.trans hcb⟩

private theorem saturate_closed (fuel : ℕ) {s : List ι} (hs : s.Nodup)
    (hf : missing edges target s < fuel) {a b : ι}
    (ha : a ∈ saturate edges source target follows fuel s)
    (hab : Follows edges source target follows a b) :
    b ∈ saturate edges source target follows fuel s := by
  induction fuel generalizing s with
  | zero => omega
  | succ fuel ih =>
    simp only [saturate] at ha ⊢
    split_ifs at ha ⊢ with h
    · have hsub := (length_ordered_append_eq_iff hs).mp h
      have has : a ∈ s := by
        rcases List.mem_append.mp (mem_ordered.mp ha) with hl | hr
        · exact hl
        · exact hsub hr
      exact mem_ordered.mpr (List.mem_append_right s (mem_frontier.mpr ⟨a, has, hab⟩))
    · refine ih (nodup_ordered _) ?_ ha
      have hnew : ¬ frontier edges source target follows s ⊆ s :=
        fun hsub => h ((length_ordered_append_eq_iff hs).mpr hsub)
      obtain ⟨c, hc, hcs⟩ : ∃ c ∈ frontier edges source target follows s, c ∉ s := by
        by_contra hall
        push Not at hall
        exact hnew hall
      obtain ⟨_, _, e, he, _, _, rfl⟩ := mem_frontier.mp hc
      have hgrow : s ⊆ ordered (s ++ frontier edges source target follows s) :=
        fun a ha => mem_ordered.mpr (List.mem_append_left _ ha)
      have hlt := missing_lt edges target hgrow he hcs
        (mem_ordered.mpr (List.mem_append_right s hc))
      omega

/-- With one round more than there are edges the loop computes exactly the reachable elements. -/
theorem mem_saturate_iff {s : List ι} (hs : s.Nodup) {fuel : ℕ} (hf : edges.length < fuel)
    {b : ι} : b ∈ saturate edges source target follows fuel s ↔
      ∃ a ∈ s, Relation.ReflTransGen (Follows edges source target follows) a b := by
  constructor
  · exact saturate_reachable fuel
  · rintro ⟨a, ha, hab⟩
    have hm : missing edges target s < fuel :=
      lt_of_le_of_lt (List.length_filter_le _ _) hf
    induction hab with
    | refl => exact subset_saturate fuel s ha
    | tail _ hstep ih => exact saturate_closed fuel hs hm ih hstep

end Saturate

end VibeKanban.Lib
