import SchemaFilter.Predicate.Sql
import SchemaFilter.Proofs.Predicate.Shape

/-!
# The leaves of a predicate

A predicate compares fields with values in its leaves and only combines them in its groups, so most
of what is said about predicates is said about their leaves from left to right.

Main definitions and results:

* `Predicate.induct`: induction over predicates;
* `Predicate.comparisons`: the leaves, from left to right;
* `Predicate.bound`: the values that the leaves bind when they are written in SQL.
-/

namespace SchemaFilter

/-- What holds of all leaves, and of every group whose members it holds of, holds of all
    predicates. -/
@[elab_as_elim]
theorem Predicate.induct {motive : Predicate → Prop}
    (leaf : ∀ f r v, motive (.leaf f r v))
    (group : ∀ op ps, (∀ p ∈ ps, motive p) → motive (.group op ps)) : ∀ p, motive p
  | .leaf f r v => leaf f r v
  | .group op ps => group op ps fun p _ => induct leaf group p

/-- A leaf by itself: a field is compared with a value. -/
structure Comparison where
  field : FieldRef
  restriction : Restriction
  value : Value

/-- The values that a membership is about: the elements of a list, and any other value alone. -/
def Value.members : Value → List Value
  | .list vs => vs
  | v => [v]

theorem Value.operands_eq_members (v : Value) : v.operands = v.members := by
  cases v <;> rfl

/-- The values that a comparison binds: no value if it is one for equality with null, the members of
    its value if it is a membership, and the value itself else. -/
def Comparison.bound (c : Comparison) : List Value :=
  match c.restriction with
  | .equals | .notEquals => if c.value.isNull then [] else [c.value]
  | .isIn | .notIn => c.value.members
  | .greaterThan | .greaterThanOrEquals | .lessThan | .lessThanOrEquals => [c.value]

namespace Predicate

mutual

/-- The leaves from left to right. -/
def comparisons : Predicate → List Comparison
  | leaf f r v => [⟨f, r, v⟩]
  | group _ ps => allComparisons ps

def allComparisons : List Predicate → List Comparison
  | [] => []
  | p :: ps => p.comparisons ++ allComparisons ps

end

theorem allComparisons_eq_flatMap (ps : List Predicate) :
    allComparisons ps = ps.flatMap comparisons := by
  induction ps with
  | nil => rfl
  | cons p ps ih => rw [allComparisons, ih, List.flatMap_cons]

@[simp] theorem comparisons_leaf (f : FieldRef) (r : Restriction) (v : Value) :
    (leaf f r v).comparisons = [⟨f, r, v⟩] := by rw [comparisons]

@[simp] theorem comparisons_group (op : Combine) (ps : List Predicate) :
    (group op ps).comparisons = ps.flatMap comparisons := by
  rw [comparisons, allComparisons_eq_flatMap]

@[simp] theorem comparisons_flat (op : Combine) (ps : List Predicate) :
    (flat op ps).comparisons = ps.flatMap comparisons := by
  by_cases h : ps.length = 1
  · obtain ⟨p, rfl⟩ := List.length_eq_one_iff.mp h
    rw [flat_singleton, List.flatMap_singleton]
  · rw [flat_eq_group h, comparisons_group]

/-- The values that the leaves bind, from left to right. -/
def bound (p : Predicate) : List Value := p.comparisons.flatMap Comparison.bound

@[simp] theorem bound_leaf (f : FieldRef) (r : Restriction) (v : Value) :
    (leaf f r v).bound = Comparison.bound ⟨f, r, v⟩ := by
  rw [bound, comparisons_leaf, List.flatMap_singleton]

@[simp] theorem bound_group (op : Combine) (ps : List Predicate) :
    (group op ps).bound = ps.flatMap bound := by
  rw [bound, comparisons_group, List.flatMap_assoc]
  rfl

end Predicate

end SchemaFilter
