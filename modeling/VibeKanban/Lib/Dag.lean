import Mathlib.Algebra.BigOperators.Group.List.Basic
import Mathlib.Algebra.Order.BigOperators.Group.List
import Mathlib.Algebra.Order.Ring.Nat
import Mathlib.Logic.Relation
import VibeKanban.Lib.Table

/-! Finite acyclic graphs with parallel edges: induction along the edges, the number of edge
paths from a start, and amounts that flow along the edges. -/
namespace VibeKanban.Lib
open Relation

section
variable {ε ν : Type*} (edges : List ε) (source target : ε → ν)

/-- One edge. -/
def Hop (a b : ν) : Prop := ∃ e ∈ edges, source e = a ∧ target e = b

open Classical in
/-- The number of edges from which a node can be reached. -/
noncomputable def rank (v : ν) : ℕ :=
  edges.countP fun e => ReflTransGen (Hop edges source target) (target e) v

section Rank
variable {edges source target}

section Acyclic
variable (hacyclic : ∀ v, ¬ TransGen (Hop edges source target) v v)
include hacyclic

theorem rank_source_lt {e : ε} (he : e ∈ edges) :
    rank edges source target (source e) < rank edges source target (target e) := by
  classical
  have hhop : Hop edges source target (source e) (target e) := ⟨e, he, rfl, rfl⟩
  have hsame : List.Forall₂ (fun a b => b = a) edges edges := List.forall₂_same.mpr fun _ _ => rfl
  refine countP_lt_of_forall₂ hsame ?_ he ?_ ?_
  · rintro a b rfl ha
    exact decide_eq_true ((of_decide_eq_true ha).tail hhop)
  · refine decide_eq_false fun hback => ?_
    exact hacyclic (source e) (TransGen.head' hhop hback)
  · rintro b rfl
    exact decide_eq_true ReflTransGen.refl

/-- Induction along the edges. -/
theorem dag_induction {P : ν → Prop}
    (h : ∀ v, (∀ e ∈ edges, target e = v → P (source e)) → P v) (v : ν) : P v := by
  have hrank : ∀ k v, rank edges source target v < k → P v := by
    intro k
    induction k with
    | zero => exact fun v hv => absurd hv (Nat.not_lt_zero _)
    | succ k ih =>
      intro v hv
      apply h
      rintro e he rfl
      have hlt := rank_source_lt hacyclic he
      exact ih (source e) (by omega)
  exact hrank (rank edges source target v + 1) v (Nat.lt_succ_self _)

end Acyclic

end Rank

variable [DecidableEq ν]

/-- The edges that enter a node. -/
def into (v : ν) : List ε := edges.filter fun e => target e = v

/-- The sum of an amount over the sources of the edges that enter a node. -/
def inflow (amount : ν → ℕ) (v : ν) : ℕ :=
  ((into edges target v).map fun e => amount (source e)).sum

/-- The edge paths of a given length from the start to a node, the last edge first. -/
def pathsOfLength (start : ν) : ℕ → ν → List (List ε)
  | 0, v => if v = start then [[]] else []
  | k + 1, v => (into edges target v).flatMap fun e =>
      (pathsOfLength start k (source e)).map fun p => e :: p

/-- The number of edge paths from the start to a node. No path of an acyclic graph is longer than
its list of edges. -/
def pathCount (start v : ν) : ℕ :=
  ((List.range (edges.length + 1)).map fun k =>
    (pathsOfLength edges source target start k v).length).sum

variable {edges source target} {start : ν}

theorem mem_into {e : ε} {v : ν} : e ∈ into edges target v ↔ e ∈ edges ∧ target e = v := by
  simp [into]

section Acyclic
variable (hacyclic : ∀ v, ¬ TransGen (Hop edges source target) v v)
include hacyclic

variable (start) in
theorem length_pathsOfLength_of_rank_lt {k : ℕ} {v : ν} (hk : rank edges source target v < k) :
    (pathsOfLength edges source target start k v).length = 0 := by
  induction k generalizing v with
  | zero => exact absurd hk (Nat.not_lt_zero _)
  | succ k ih =>
    rw [pathsOfLength, List.length_flatMap, List.sum_eq_zero]
    intro n hn
    obtain ⟨e, hinto, rfl⟩ := List.mem_map.mp hn
    obtain ⟨he, rfl⟩ := mem_into.mp hinto
    have hlt := rank_source_lt hacyclic he
    rw [List.length_map]
    exact ih (by omega)

end Acyclic

theorem length_pathsOfLength_succ (k : ℕ) (v : ν) :
    (pathsOfLength edges source target start (k + 1) v).length =
      inflow edges source target
        (fun u => (pathsOfLength edges source target start k u).length) v := by
  simp only [pathsOfLength, List.length_flatMap, List.length_map, inflow]

theorem inflow_add (f g : ν → ℕ) (v : ν) : inflow edges source target (fun u => f u + g u) v =
    inflow edges source target f v + inflow edges source target g v := by
  unfold inflow
  exact List.sum_map_add

theorem inflow_mono {f g : ν → ℕ} {v : ν}
    (h : ∀ e ∈ edges, target e = v → f (source e) ≤ g (source e)) :
    inflow edges source target f v ≤ inflow edges source target g v := by
  unfold inflow
  apply List.sum_le_sum
  intro e he
  obtain ⟨he, hv⟩ := mem_into.mp he
  exact h e he hv

theorem inflow_congr {f g : ν → ℕ} {v : ν}
    (h : ∀ e ∈ edges, target e = v → f (source e) = g (source e)) :
    inflow edges source target f v = inflow edges source target g v :=
  le_antisymm (inflow_mono fun e he hv => (h e he hv).le)
    (inflow_mono fun e he hv => (h e he hv).ge)

variable (source target) in
theorem le_inflow {e : ε} (he : e ∈ edges) (f : ν → ℕ) :
    f (source e) ≤ inflow edges source target f (target e) :=
  List.single_le_sum (fun _ _ => Nat.zero_le _) _
    (List.mem_map.mpr ⟨e, mem_into.mpr ⟨he, rfl⟩, rfl⟩)

/-- The paths of length at most `k` end with an edge whose source has shorter ones. -/
theorem sum_pathsOfLength (k : ℕ) (v : ν) :
    ((List.range (k + 1)).map fun i =>
      (pathsOfLength edges source target start i v).length).sum =
    (if v = start then 1 else 0) + inflow edges source target (fun u => ((List.range k).map fun i =>
      (pathsOfLength edges source target start i u).length).sum) v := by
  induction k with
  | zero =>
    have hzero : inflow edges source target (fun _ => 0) v = 0 := by
      unfold inflow
      simp
    rw [Nat.zero_add, List.range_one, List.map_singleton, List.sum_singleton, List.range_zero]
    simp only [List.map_nil, List.sum_nil, hzero, pathsOfLength]
    split_ifs with hv
    · rfl
    · rfl
  | succ k ih =>
    rw [List.range_succ, List.map_append, List.sum_append, ih, List.map_singleton,
      List.sum_singleton, length_pathsOfLength_succ, Nat.add_assoc, ← inflow_add]
    congr 2
    funext u
    rw [List.range_succ, List.map_append, List.sum_append, List.map_singleton, List.sum_singleton]

section Acyclic
variable (hacyclic : ∀ v, ¬ TransGen (Hop edges source target) v v)
include hacyclic

variable (start) in
/-- A path ends at the start without an edge, or with an edge after a path to its source. -/
theorem pathCount_eq (v : ν) : pathCount edges source target start v =
    (if v = start then 1 else 0) +
      inflow edges source target (pathCount edges source target start) v := by
  unfold pathCount
  rw [sum_pathsOfLength]
  congr 1
  apply inflow_congr
  rintro e he rfl
  have hlt := rank_source_lt hacyclic he
  have hlength : rank edges source target (target e) ≤ edges.length := List.countP_le_length
  have hlast := length_pathsOfLength_of_rank_lt start hacyclic
    (show rank edges source target (source e) < edges.length by omega)
  rw [List.range_succ, List.map_append, List.sum_append, List.map_singleton, List.sum_singleton,
    hlast, Nat.add_zero]

theorem pathCount_pos {v : ν} (h : ReflTransGen (Hop edges source target) start v) :
    0 < pathCount edges source target start v := by
  induction h with
  | refl =>
    rw [pathCount_eq start hacyclic, if_pos rfl]
    omega
  | tail _ hhop ih =>
    obtain ⟨e, he, rfl, rfl⟩ := hhop
    have hle := le_inflow source target he (pathCount edges source target start)
    rw [pathCount_eq start hacyclic]
    omega

variable {rows done : ν → ℕ}
  (hreach : ∀ e ∈ edges, ReflTransGen (Hop edges source target) start (source e))
  (hdone : ∀ v, done v ≤ rows v)
  (hrows : ∀ v, rows v ≤ max 1 (inflow edges source target done v))
include hreach hdone hrows

/-- Amounts that the finished amounts upstream pay for stay within the number of paths. -/
theorem rows_le_pathCount (v : ν) : rows v ≤ max 1 (pathCount edges source target start v) := by
  refine dag_induction (P := fun v => rows v ≤ max 1 (pathCount edges source target start v))
    hacyclic (fun v ih => ?_) v
  have hflow : inflow edges source target done v ≤
      inflow edges source target (pathCount edges source target start) v := by
    apply inflow_mono
    intro e he hv
    have hpos := pathCount_pos hacyclic (hreach e he)
    have hsource := ih e he hv
    have hle := hdone (source e)
    omega
  have hcount := pathCount_eq start hacyclic v
  have hv := hrows v
  omega

omit hdone in
/-- Once everything is finished and everything asked for is there, the amounts are the numbers of
paths. -/
theorem done_eq_pathCount {v : ν} (hfinished : ∀ v, done v = rows v)
    (hpaid : ∀ v, inflow edges source target done v ≤ rows v)
    (hpos : ∀ v, ReflTransGen (Hop edges source target) start v → 0 < rows v)
    (hv : ReflTransGen (Hop edges source target) start v) :
    done v = pathCount edges source target start v := by
  revert hv
  refine dag_induction (P := fun v => ReflTransGen (Hop edges source target) start v →
    done v = pathCount edges source target start v) hacyclic (fun v ih hv => ?_) v
  have hflow : inflow edges source target done v =
      inflow edges source target (pathCount edges source target start) v :=
    inflow_congr fun e he hto => ih e he hto (hreach e he)
  have hcount := pathCount_eq start hacyclic v
  have hupper := hrows v
  have hlower := hpaid v
  have hone := hpos v hv
  have hall := hfinished v
  by_cases heq : v = start
  · have hnone : into edges target v = [] := by
      rw [List.eq_nil_iff_forall_not_mem]
      intro e hinto
      obtain ⟨he, hto⟩ := mem_into.mp hinto
      exact hacyclic start (TransGen.tail' (hreach e he) ⟨e, he, rfl, hto.trans heq⟩)
    have hflow : inflow edges source target done v = 0 := by
      unfold inflow
      rw [hnone]
      rfl
    rw [if_pos heq] at hcount
    omega
  · have hcountpos := pathCount_pos hacyclic hv
    rw [if_neg heq] at hcount
    omega

end Acyclic

end

end VibeKanban.Lib
