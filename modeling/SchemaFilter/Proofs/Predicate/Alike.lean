import SchemaFilter.Proofs.Predicate.Tokens

/-!
# Conditions do not depend on values

Two predicates that restrict the same fields in the same way, and differ only in the values that
they compare with, are written as one and the same text. Of a value the text only shows whether it
is null, for equality, and how many members it has, for membership.

Results:

* `Predicate.Alike`: predicates that differ only in values of the same shape;
* `toSql_eq_of_alike`: they have one text, and bind as many values.
-/

namespace SchemaFilter

open Sql

/-- Values have the same shape for a restriction: for equality both or none of them are null, and
    for membership they have equally many members. -/
def Restriction.SameShape (r : Restriction) (v w : Value) : Prop :=
  match r with
  | equals | notEquals => v.isNull = w.isNull
  | isIn | notIn => v.members.length = w.members.length
  | greaterThan | greaterThanOrEquals | lessThan | lessThanOrEquals => True

/-- Two predicates differ only in the values of their leaves, and these have the same shapes. -/
inductive Predicate.Alike : Predicate → Predicate → Prop where
  | leaf (f : FieldRef) {r : Restriction} {v w : Value} (shape : r.SameShape v w) :
    Alike (.leaf f r v) (.leaf f r w)
  | group (op : Combine) {ps qs : List Predicate} (members : List.Forall₂ Alike ps qs) :
    Alike (.group op ps) (.group op qs)

/-! ## Leaves -/

theorem FieldRef.sqlTokens_eq_of_sameShape (f : FieldRef) {r : Restriction} {v w : Value}
    (h : r.SameShape v w) (n : Nat) : (f.sqlTokens r v n).1 = (f.sqlTokens r w n).1 := by
  cases r with
  | equals | notEquals =>
    have h : v.isNull = w.isNull := h
    by_cases hw : w.isNull <;> simp [FieldRef.sqlTokens, h, hw]
  | isIn | notIn =>
    have h : v.operands.length = w.operands.length := by
      rw [v.operands_eq_members, w.operands_eq_members]
      exact h
    have hempty : v.operands.isEmpty = w.operands.isEmpty := by
      rw [Bool.eq_iff_iff, List.isEmpty_iff_length_eq_zero, List.isEmpty_iff_length_eq_zero, h]
    by_cases hw : w.operands.isEmpty <;> simp [FieldRef.sqlTokens, h, hempty, hw]
  | greaterThan | greaterThanOrEquals | lessThan | lessThanOrEquals => rfl

theorem Comparison.length_bound_of_sameShape (f : FieldRef) {r : Restriction} {v w : Value}
    (h : r.SameShape v w) : (bound ⟨f, r, v⟩).length = (bound ⟨f, r, w⟩).length := by
  cases r with
  | equals | notEquals =>
    have h : v.isNull = w.isNull := h
    by_cases hw : w.isNull <;> simp [bound, h, hw]
  | isIn | notIn => exact h
  | greaterThan | greaterThanOrEquals | lessThan | lessThanOrEquals => rfl

/-! ## Predicates -/

namespace Predicate

/-- Alike predicates are written with the same tokens. -/
theorem Alike.sameTokens {p q : Predicate} (h : p.Alike q) : SameTokens p q := by
  induction p using induct generalizing q with
  | leaf f r v =>
    cases h with
    | leaf _ shape =>
      refine ⟨fun n => f.sqlTokens_eq_of_sameShape shape n, ?_⟩
      rw [bound_leaf, bound_leaf]
      exact Comparison.length_bound_of_sameShape f shape
  | group op ps ih =>
    cases h with
    | group _ members =>
      have hmembers := (List.forall₂_and_left ps _).mpr ⟨ih, members⟩
      exact .group (hmembers.imp fun p q h => h.1 h.2) op

end Predicate

/-- **Values do not enter the text.** Predicates that differ only in values of the same shapes are
    written as one text, and bind equally many values. -/
theorem toSql_eq_of_alike {p q : Predicate} (h : p.Alike q) (offset : Nat) :
    (p.toSql offset).1 = (q.toSql offset).1 ∧
      (p.toSql offset).2.length = (q.toSql offset).2.length := by
  have hsame := h.sameTokens
  rw [p.toSql_eq, q.toSql_eq]
  exact ⟨congrArg render (hsame.tokens (offset + 1)), hsame.length_bound⟩

/-- The books of a title, or from after a year by one of some authors. -/
def bookCondition (title year : Value) (authors : List Value) : Predicate :=
  .group .or [.leaf ⟨"Book", "title", "title", "books"⟩ .equals title,
    .group .and [.leaf ⟨"Book", "year", "year", "books"⟩ .greaterThan year,
      .leaf ⟨"Author", "name", "full \"name\"", "r1__author"⟩ .isIn (.list authors)]]

theorem toSql_bookCondition_eq :
    let p := bookCondition (.string "Emma") (.int 1815) [.string "Austen", .null]
    let q := bookCondition (.string "x) OR ($1 = $1") .null [.string "NULL", .list []]
    p.Alike q ∧ (p.toSql 2).1 = (q.toSql 2).1 ∧ (p.toSql 2).2.length = (q.toSql 2).2.length := by
  intro p q
  have h : p.Alike q := .group _ (.cons (.leaf _ rfl) (.cons (.group _ (.cons (.leaf _ trivial)
    (.cons (.leaf _ rfl) .nil))) .nil))
  exact ⟨h, toSql_eq_of_alike h 2⟩

end SchemaFilter
