import Mathlib.Algebra.GroupWithZero.Nat
import SchemaFilter.Predicate.Basic

/-!
# The shape of combined predicates

`Predicate.combine` makes a flat group of its members, or stands for the only one. The counts and
measures of a flat group come from those of its members.

Results:

* `combine_eq_flat`: a combination is a flat group;
* `leafCount_flat`: a flat group has the leaves of its members;
* `Branching.flat`: it has no group of fewer than two members if its members have none;
* `depth_flat_le`: it is at most one level deeper than its members.
-/

namespace SchemaFilter.Predicate

/-- Every group in a predicate has at least two members. -/
inductive Branching : Predicate → Prop where
  | leaf (f : FieldRef) (r : Restriction) (v : Value) : Branching (.leaf f r v)
  | group {op : Combine} {ps : List Predicate} (two_le : 2 ≤ ps.length)
      (members : ∀ p ∈ ps, Branching p) : Branching (.group op ps)

theorem leafCounts_eq_sum (ps : List Predicate) : leafCounts ps = (ps.map leafCount).sum := by
  induction ps with
  | nil => rfl
  | cons p ps ih => rw [leafCounts, ih, List.map_cons, List.sum_cons]

theorem maxDepth_le {n : Nat} {ps : List Predicate} (h : ∀ p ∈ ps, p.depth ≤ n) :
    maxDepth ps ≤ n := by
  induction ps with
  | nil => exact Nat.zero_le n
  | cons p ps ih =>
    rw [maxDepth]
    have hp := h p List.mem_cons_self
    have hps := ih fun q hq => h q (List.mem_cons_of_mem p hq)
    omega

/-! ## Leaves -/

theorem leafCount_of_isLeaf {p : Predicate} (h : p.isLeaf) : p.leafCount = 1 := by
  cases p with
  | leaf f r v => rfl
  | group op ps => exact absurd h Bool.false_ne_true

theorem depth_of_isLeaf {p : Predicate} (h : p.isLeaf) : p.depth = 1 := by
  cases p with
  | leaf f r v => rfl
  | group op ps => exact absurd h Bool.false_ne_true

theorem Branching.of_isLeaf {p : Predicate} (h : p.isLeaf) : Branching p := by
  cases p with
  | leaf f r v => exact .leaf f r v
  | group op ps => exact absurd h Bool.false_ne_true

/-! ## Combinations -/

/-- One flat group of some predicates, or the only one of them. -/
def flat (op : Combine) (ps : List Predicate) : Predicate :=
  if h : ps.length = 1 then ps[0] else .group op ps

@[simp] theorem flat_singleton (op : Combine) (p : Predicate) : flat op [p] = p := rfl

theorem flat_eq_group {op : Combine} {ps : List Predicate} (h : ps.length ≠ 1) :
    flat op ps = .group op ps := dif_neg h

/-- A combination is a flat group. -/
theorem combine_eq_flat (op : Combine) (ps : List Predicate) : combine op ps = flat op ps := by
  unfold combine
  split
  · rfl
  · next hne =>
    rw [flat_eq_group]
    intro h
    obtain ⟨p, rfl⟩ := List.length_eq_one_iff.mp h
    exact hne p rfl

theorem leafCount_flat (op : Combine) (ps : List Predicate) :
    (flat op ps).leafCount = (ps.map leafCount).sum := by
  by_cases h : ps.length = 1
  · obtain ⟨p, rfl⟩ := List.length_eq_one_iff.mp h
    simp
  · rw [flat_eq_group h, leafCount, leafCounts_eq_sum]

theorem Branching.flat {op : Combine} {ps : List Predicate} (hne : ps ≠ [])
    (h : ∀ p ∈ ps, Branching p) : Branching (flat op ps) := by
  by_cases h1 : ps.length = 1
  · obtain ⟨p, rfl⟩ := List.length_eq_one_iff.mp h1
    exact h p List.mem_cons_self
  · rw [flat_eq_group h1]
    have : 0 < ps.length := List.length_pos_iff.mpr hne
    exact .group (by omega) h

theorem depth_flat_le {op : Combine} {n : Nat} {ps : List Predicate}
    (h : ∀ p ∈ ps, p.depth ≤ n) : (flat op ps).depth ≤ n + 1 := by
  by_cases h1 : ps.length = 1
  · obtain ⟨p, rfl⟩ := List.length_eq_one_iff.mp h1
    have := h p List.mem_cons_self
    rw [flat_singleton]
    omega
  · rw [flat_eq_group h1, depth]
    have := maxDepth_le h
    omega

end SchemaFilter.Predicate
