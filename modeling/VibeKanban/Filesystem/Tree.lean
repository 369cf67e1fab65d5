import Mathlib.Data.List.Basic
import Mathlib.Data.List.Infix

/-! Directory trees and the changes to them. A path is the list of its components below the root. -/
namespace VibeKanban.Filesystem

abbrev Path := List String

/-- The existing directories, each with its parents. -/
structure Tree where
  dirs : List Path
  root : [] ∈ dirs
  closed : ∀ dir ∈ dirs, dir ≠ [] → dir.dropLast ∈ dirs

namespace Tree
variable (t : Tree)

def children (dir : Path) : List Path := t.dirs.filter fun path => path ≠ [] ∧ path.dropLast = dir

def depth : ℕ := (t.dirs.map List.length).foldr max 0

variable {t} {dir path ancestor target : Path}

theorem mem_children : path ∈ t.children dir ↔ path ∈ t.dirs ∧ path ≠ [] ∧ path.dropLast = dir := by
  simp [children]

theorem length_le_depth (h : path ∈ t.dirs) : path.length ≤ t.depth := by
  unfold depth
  revert h
  induction t.dirs with
  | nil => simp
  | cons first rest ih =>
    intro h
    rw [List.map_cons, List.foldr_cons]
    rcases List.mem_cons.mp h with rfl | hrest
    · exact le_max_left _ _
    · exact (ih hrest).trans (le_max_right _ _)

theorem length_dropLast_lt (h : path ≠ []) : path.dropLast.length < path.length := by
  have hpos := List.length_pos_iff.mpr h
  rw [List.length_dropLast]
  omega

theorem isPrefix_dropLast (h : ancestor <+: path) (hne : ancestor ≠ path) : ancestor <+: path.dropLast := by
  obtain ⟨rest, rfl⟩ := h
  cases rest using List.reverseRecOn with
  | nil => simp at hne
  | append_singleton rest last =>
    rw [← List.append_assoc, List.dropLast_concat]
    exact List.prefix_append ancestor rest

theorem mem_of_isPrefix (h : ancestor <+: path) (hpath : path ∈ t.dirs) : ancestor ∈ t.dirs := by
  induction hlength : path.length using Nat.strong_induction_on generalizing path with
  | _ n ih =>
    by_cases heq : ancestor = path
    · rwa [heq]
    · have hne : path ≠ [] := by
        rintro rfl
        exact heq (List.prefix_nil.mp h)
      have hshorter := length_dropLast_lt hne
      exact ih _ (by omega) (isPrefix_dropLast h heq) (t.closed path hpath hne) rfl

/-- A directory with nothing below it. -/
def single : Tree where
  dirs := [[]]
  root := by simp
  closed dir hdir hne := absurd (List.mem_singleton.mp hdir) hne

/-- What is left when a directory goes. -/
def prune (t : Tree) (path : Path) (h : path ≠ []) : Tree where
  dirs := t.dirs.filter fun dir => ¬ path <+: dir
  root := by simp [t.root, h]
  closed dir hdir hne := by
    simp only [List.mem_filter, decide_eq_true_eq] at hdir ⊢
    exact ⟨t.closed dir hdir.1 hne, fun habove => hdir.2 (habove.trans (List.dropLast_prefix dir))⟩

/-- The tree below a directory. -/
def below (t : Tree) (path : Path) (h : path ∈ t.dirs) : Tree where
  dirs := (t.dirs.filter fun dir => path <+: dir).map (List.drop path.length)
  root := by
    simp only [List.mem_map, List.mem_filter, decide_eq_true_eq]
    exact ⟨path, ⟨h, List.prefix_rfl⟩, List.drop_length⟩
  closed dir hdir hne := by
    simp only [List.mem_map, List.mem_filter, decide_eq_true_eq] at hdir ⊢
    obtain ⟨_, ⟨hmem, rest, rfl⟩, rfl⟩ := hdir
    rw [List.drop_left] at hne ⊢
    have hparent := t.closed _ hmem (by simp [hne])
    rw [List.dropLast_append_of_ne_nil hne] at hparent
    exact ⟨path ++ rest.dropLast, ⟨hparent, List.prefix_append _ _⟩, List.drop_left⟩

/-- A tree put in the place of whatever is at a path. -/
def place (t : Tree) (target : Path) (arrived : Tree) (hparent : target.dropLast ∈ t.dirs) (h : target ≠ []) :
    Tree where
  dirs := (t.prune target h).dirs ++ arrived.dirs.map (target ++ ·)
  root := List.mem_append_left _ (t.prune target h).root
  closed dir hdir hne := by
    rcases List.mem_append.mp hdir with hold | hnew
    · exact List.mem_append_left _ ((t.prune target h).closed dir hold hne)
    · obtain ⟨rest, hrest, rfl⟩ := List.mem_map.mp hnew
      by_cases hempty : rest = []
      · subst hempty
        apply List.mem_append_left
        simp only [prune, List.mem_filter, decide_eq_true_eq, List.append_nil]
        refine ⟨hparent, fun habove => ?_⟩
        have hlength := habove.length_le
        have hshorter := length_dropLast_lt h
        omega
      · apply List.mem_append_right
        rw [List.dropLast_append_of_ne_nil hempty]
        exact List.mem_map.mpr ⟨rest.dropLast, arrived.closed rest hrest hempty, rfl⟩

theorem mem_prune (h : path ≠ []) : dir ∈ (t.prune path h).dirs ↔ dir ∈ t.dirs ∧ ¬ path <+: dir := by
  simp [prune]

theorem mem_place {arrived : Tree} (hparent : target.dropLast ∈ t.dirs) (h : target ≠ []) :
    dir ∈ (t.place target arrived hparent h).dirs ↔
      (dir ∈ t.dirs ∧ ¬ target <+: dir) ∨ ∃ rest ∈ arrived.dirs, target ++ rest = dir := by
  simp [place, mem_prune]

theorem parent_mem_prune (hparent : target.dropLast ∈ t.dirs) (h : path ≠ []) (houtside : ¬ path <+: target) :
    target.dropLast ∈ (t.prune path h).dirs :=
  (mem_prune h).mpr ⟨hparent, fun habove => houtside (habove.trans (List.dropLast_prefix target))⟩

theorem target_mem_place {arrived : Tree} (hparent : target.dropLast ∈ t.dirs) (h : target ≠ []) :
    target ∈ (t.place target arrived hparent h).dirs :=
  (mem_place hparent h).mpr (.inr ⟨[], arrived.root, List.append_nil target⟩)

end Tree

/-- What can happen to the directories of a tree. A directory is put only in the place of an empty one. -/
inductive Change (t : Tree) where
  | create (path : Path) (hparent : path.dropLast ∈ t.dirs) (h : path ∉ t.dirs)
  | remove (path : Path) (h : path ∈ t.dirs) (hroot : path ≠ [])
  | rename (path target : Path) (h : path ∈ t.dirs) (hroot : path ≠ []) (htarget : target ≠ [])
    (hparent : target.dropLast ∈ t.dirs) (houtside : ¬ path <+: target)
    (hempty : ∀ dir ∈ t.dirs, target <+: dir → dir = target)
  | moveIn (target : Path) (arrived : Tree) (htarget : target ≠ []) (hparent : target.dropLast ∈ t.dirs)
    (hempty : ∀ dir ∈ t.dirs, target <+: dir → dir = target)
  | none

namespace Change
variable {t : Tree}

/-- The directory that goes. -/
def departed : Change t → Option Path
  | .remove path _ _ => some path
  | .rename path _ _ _ _ _ _ _ => some path
  | _ => Option.none

/-- The directory that comes. -/
def arrived : Change t → Option Path
  | .create path _ _ => some path
  | .rename _ target _ _ _ _ _ _ => some target
  | .moveIn target _ _ _ _ => some target
  | _ => Option.none

theorem ne_nil_of_create {path : Path} (h : path ∉ t.dirs) : path ≠ [] := by
  rintro rfl
  exact h t.root

def apply : Change t → Tree
  | .create path hparent h => t.place path .single hparent (ne_nil_of_create h)
  | .remove path _ hroot => t.prune path hroot
  | .rename path target h hroot htarget hparent houtside _ =>
    (t.prune path hroot).place target (t.below path h)
      (Tree.parent_mem_prune hparent hroot houtside) htarget
  | .moveIn target arrived htarget hparent _ => t.place target arrived hparent htarget
  | .none => t

variable {change : Change t} {dir path target : Path}

theorem departed_spec (h : change.departed = some path) : path ∈ t.dirs ∧ path ≠ [] := by
  cases change <;> simp_all [departed] <;> (subst h; constructor <;> assumption)

/-- What arrives has a parent that stays, and at most an empty directory in its place. -/
theorem arrived_spec (h : change.arrived = some target) :
    target ≠ [] ∧ target.dropLast ∈ t.dirs ∧ (∀ dir ∈ t.dirs, target <+: dir → dir = target) ∧
      ∀ path, change.departed = some path → ¬ path <+: target := by
  cases change with
  | create path hparent habsent =>
    obtain rfl := Option.some.inj h
    refine ⟨ne_nil_of_create habsent, hparent, ?_, by simp [departed]⟩
    intro dir hdir habove
    exact absurd (Tree.mem_of_isPrefix habove hdir) habsent
  | remove path hmem hroot => simp [arrived] at h
  | rename path other hmem hroot htarget hparent houtside hempty =>
    obtain rfl := Option.some.inj h
    exact ⟨htarget, hparent, hempty, by simpa [departed] using houtside⟩
  | moveIn other tree htarget hparent hempty =>
    obtain rfl := Option.some.inj h
    exact ⟨htarget, hparent, hempty, by simp [departed]⟩
  | none => simp [arrived] at h

theorem mem_apply_iff (harrived : ∀ target, change.arrived = some target → ¬ target <+: dir) :
    dir ∈ change.apply.dirs ↔
      dir ∈ t.dirs ∧ ∀ path, change.departed = some path → ¬ path <+: dir := by
  cases change with
  | create path hparent habsent =>
    have houtside := harrived path rfl
    simp only [apply, Tree.mem_place, departed]
    constructor
    · rintro (hold | ⟨rest, -, rfl⟩)
      · exact ⟨hold.1, by simp⟩
      · exact absurd (List.prefix_append path rest) houtside
    · exact fun hold => .inl ⟨hold.1, houtside⟩
  | remove path hmem hroot => simp [apply, departed, Tree.mem_prune]
  | rename path target hmem hroot htarget hparent habove hempty =>
    have houtside := harrived target rfl
    simp only [apply, Tree.mem_place, Tree.mem_prune, departed]
    constructor
    · rintro (hold | ⟨rest, -, rfl⟩)
      · exact ⟨hold.1.1, by simpa using hold.1.2⟩
      · exact absurd (List.prefix_append target rest) houtside
    · exact fun hold => .inl ⟨⟨hold.1, hold.2 path rfl⟩, houtside⟩
  | moveIn target tree htarget hparent hempty =>
    have houtside := harrived target rfl
    simp only [apply, Tree.mem_place, departed]
    constructor
    · rintro (hold | ⟨rest, -, rfl⟩)
      · exact ⟨hold.1, by simp⟩
      · exact absurd (List.prefix_append target rest) houtside
    · exact fun hold => .inl ⟨hold.1, houtside⟩
  | none => simp [apply, departed]

theorem arrived_mem_apply (h : change.arrived = some target) : target ∈ change.apply.dirs := by
  cases change with
  | create path hparent habsent =>
    obtain rfl := Option.some.inj h
    exact Tree.target_mem_place hparent (ne_nil_of_create habsent)
  | remove path hmem hroot => simp [arrived] at h
  | rename path other hmem hroot htarget hparent houtside hempty =>
    obtain rfl := Option.some.inj h
    exact Tree.target_mem_place (Tree.parent_mem_prune hparent hroot houtside) htarget
  | moveIn other tree htarget hparent hempty =>
    obtain rfl := Option.some.inj h
    exact Tree.target_mem_place hparent htarget
  | none => simp [arrived] at h

/-- What is not below the departed directory stays. -/
theorem mem_apply_of_mem (hdir : dir ∈ t.dirs)
    (hdeparted : ∀ path, change.departed = some path → ¬ path <+: dir) : dir ∈ change.apply.dirs := by
  by_cases hinside : ∃ target, change.arrived = some target ∧ target <+: dir
  · obtain ⟨target, harrived, habove⟩ := hinside
    obtain rfl := (arrived_spec harrived).2.2.1 dir hdir habove
    exact arrived_mem_apply harrived
  · push Not at hinside
    exact (mem_apply_iff hinside).mpr ⟨hdir, hdeparted⟩

end Change

end VibeKanban.Filesystem
