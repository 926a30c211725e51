import Mathlib.Data.List.Forall2
import SchemaFilter.Proofs.Predicate.Comparisons

/-!
# The tokens of a condition

How the tokens of a predicate and the values that it binds are made up. A leaf is written in one of
five ways (`Sql.Written`), and a group by its members, each numbered after the values that those
before it bind.

Results:

* `FieldRef.written`: the tokens and values of a leaf;
* `Predicate.sqlTokens_snd`: a predicate binds the values of its leaves, whatever number is first;
* `Predicate.sqlTokens_group_cons`: the tokens of a group, member by member;
* `Predicate.SameTokens.group`: groups have the same tokens if their members have;
* `Predicate.numbers_sqlTokens`: the placeholders are numbered through.
-/

namespace SchemaFilter

open Sql

/-! ## Leaves -/

namespace Sql

/-- The ways in which a comparison of a column is written, its first placeholder having the given
    number, and the values that it binds. -/
inductive Written (qualifier column : String) (first : Nat) :
    Restriction → Value → List Token → List Value → Prop where
  | isNull : Written qualifier column first .equals .null [.column qualifier column, .isNull] []
  | isNotNull :
    Written qualifier column first .notEquals .null [.column qualifier column, .isNotNull] []
  | compare {r : Restriction} {v : Value} (single : r.isMembership = false)
    (ordering_of_null : v.isNull = true → r.isOrdering = true) :
    Written qualifier column first r v
      [.column qualifier column, .compare r, .placeholder first] [v]
  | constant {r : Restriction} {v : Value} (membership : r.isMembership = true)
    (members_eq : v.members = []) :
    Written qualifier column first r v [.constant (r == .notIn)] []
  | membership {r : Restriction} {v : Value} (membership : r.isMembership = true)
    (members_ne : v.members ≠ []) :
    Written qualifier column first r v
      (.column qualifier column :: .compare r :: .openParen ::
        (placeholders first v.members.length ++ [.closeParen])) v.members

end Sql

theorem Value.eq_null_of_isNull {v : Value} (h : v.isNull = true) : v = .null := by
  cases v <;> simp_all [isNull]

theorem FieldRef.written_membership (f : FieldRef) {r : Restriction} (hr : r.isMembership = true)
    (v : Value) (n : Nat) :
    Written f.qualifier f.column n r v (f.sqlTokens r v n).1 (f.sqlTokens r v n).2 := by
  have hs : f.sqlTokens r v n =
      if v.members.isEmpty then ([.constant (r == .notIn)], [])
      else (.column f.qualifier f.column :: .compare r :: .openParen ::
        (placeholders n v.members.length ++ [.closeParen]), v.members) := by
    rw [← v.operands_eq_members]
    cases r with
    | isIn | notIn => rfl
    | _ => cases hr
  by_cases hempty : v.members.isEmpty
  · rw [hs, if_pos hempty]
    exact .constant hr (List.isEmpty_iff.mp hempty)
  · rw [hs, if_neg hempty]
    exact .membership hr (mt List.isEmpty_iff.mpr hempty)

/-- How a leaf is written. -/
theorem FieldRef.written (f : FieldRef) (r : Restriction) (v : Value) (n : Nat) :
    Written f.qualifier f.column n r v (f.sqlTokens r v n).1 (f.sqlTokens r v n).2 := by
  cases r with
  | equals =>
    by_cases hv : v.isNull
    · rw [Value.eq_null_of_isNull hv]
      exact .isNull
    · rw [FieldRef.sqlTokens]
      simp only [hv]
      exact .compare rfl fun hnull => absurd hnull hv
  | notEquals =>
    by_cases hv : v.isNull
    · rw [Value.eq_null_of_isNull hv]
      exact .isNotNull
    · rw [FieldRef.sqlTokens]
      simp only [hv]
      exact .compare rfl fun hnull => absurd hnull hv
  | isIn | notIn => exact f.written_membership rfl v n
  | greaterThan | greaterThanOrEquals | lessThan | lessThanOrEquals =>
    exact .compare rfl fun _ => rfl

theorem FieldRef.sqlTokens_snd (f : FieldRef) (r : Restriction) (v : Value) (n : Nat) :
    (f.sqlTokens r v n).2 = Comparison.bound ⟨f, r, v⟩ := by
  cases r with
  | equals | notEquals =>
    by_cases hv : v.isNull <;> simp [FieldRef.sqlTokens, Comparison.bound, hv]
  | isIn | notIn =>
    by_cases hv : v.operands.isEmpty <;>
      simp_all [FieldRef.sqlTokens, Comparison.bound, Value.operands_eq_members]
  | greaterThan | greaterThanOrEquals | lessThan | lessThanOrEquals => rfl

/-! ## Groups -/

namespace Predicate

theorem memberTokens_cons_cons (op : Combine) (p q : Predicate) (ps : List Predicate) (n : Nat) :
    memberTokens op (p :: q :: ps) n =
      ((p.sqlTokens n).1 ++ .combine op ::
        (memberTokens op (q :: ps) (n + (p.sqlTokens n).2.length)).1,
      (p.sqlTokens n).2 ++ (memberTokens op (q :: ps) (n + (p.sqlTokens n).2.length)).2) := by
  rw [memberTokens]
  exact nofun

theorem memberTokens_snd {ps : List Predicate} (h : ∀ p ∈ ps, ∀ n, (p.sqlTokens n).2 = p.bound)
    (op : Combine) (n : Nat) : (memberTokens op ps n).2 = ps.flatMap bound := by
  induction ps generalizing n with
  | nil => rfl
  | cons p ps ih =>
    have hp := h p List.mem_cons_self
    have hps := ih fun q hq => h q (List.mem_cons_of_mem p hq)
    cases ps with
    | nil => simp [memberTokens, hp]
    | cons q ps => simp [memberTokens_cons_cons, hp, hps]

/-- A predicate binds the values of its leaves, whatever the number of the first placeholder. -/
theorem sqlTokens_snd (p : Predicate) (n : Nat) : (p.sqlTokens n).2 = p.bound := by
  induction p using induct generalizing n with
  | leaf f r v => rw [sqlTokens, FieldRef.sqlTokens_snd, bound_leaf]
  | group op ps ih => rw [sqlTokens, bound_group, memberTokens_snd ih]

theorem toSql_eq (p : Predicate) (offset : Nat) :
    p.toSql offset = (render (p.sqlTokens (offset + 1)).1, p.bound) := by
  rw [← p.sqlTokens_snd (offset + 1), toSql]

/-- The tokens of members that come after others, each with the operator before it. -/
def laterTokens (op : Combine) : List Predicate → (first : Nat) → List Token
  | [], _ => []
  | p :: ps, first =>
    .combine op :: ((p.sqlTokens first).1 ++ laterTokens op ps (first + p.bound.length))

theorem memberTokens_cons (op : Combine) (p : Predicate) (ps : List Predicate) (n : Nat) :
    (memberTokens op (p :: ps) n).1 =
      (p.sqlTokens n).1 ++ laterTokens op ps (n + p.bound.length) := by
  induction ps generalizing p n with
  | nil => rw [memberTokens, laterTokens, List.append_nil]
  | cons q ps ih => rw [memberTokens_cons_cons, ih, sqlTokens_snd, laterTokens]

theorem sqlTokens_group (op : Combine) (ps : List Predicate) (n : Nat) :
    ((group op ps).sqlTokens n).1 = .openParen :: ((memberTokens op ps n).1 ++ [.closeParen]) := rfl

/-- The tokens of a group, member by member. -/
theorem sqlTokens_group_cons (op : Combine) (p : Predicate) (ps : List Predicate) (n : Nat) :
    ((group op (p :: ps)).sqlTokens n).1 =
      .openParen ::
        ((p.sqlTokens n).1 ++ (laterTokens op ps (n + p.bound.length) ++ [.closeParen])) := by
  rw [sqlTokens_group, memberTokens_cons, List.append_assoc]

end Predicate

/-! ## Predicates with the same tokens -/

namespace Predicate

/-- Two predicates are written with the same tokens, whatever number comes first, and bind equally
    many values. -/
structure SameTokens (p q : Predicate) : Prop where
  tokens : ∀ n, (p.sqlTokens n).1 = (q.sqlTokens n).1
  length_bound : p.bound.length = q.bound.length

theorem SameTokens.flatMap_bound {ps qs : List Predicate} (h : List.Forall₂ SameTokens ps qs) :
    (ps.flatMap bound).length = (qs.flatMap bound).length := by
  induction h with
  | nil => rfl
  | cons head tail ih =>
    rw [List.flatMap_cons, List.flatMap_cons, List.length_append, List.length_append,
      head.length_bound, ih]

theorem SameTokens.laterTokens_eq {ps qs : List Predicate} (h : List.Forall₂ SameTokens ps qs)
    (op : Combine) (n : Nat) : laterTokens op ps n = laterTokens op qs n := by
  induction h generalizing n with
  | nil => rfl
  | cons head tail ih => rw [laterTokens, laterTokens, head.tokens, head.length_bound, ih]

theorem SameTokens.group {ps qs : List Predicate} (h : List.Forall₂ SameTokens ps qs)
    (op : Combine) : SameTokens (.group op ps) (.group op qs) where
  tokens n := by
    cases h with
    | nil => rfl
    | cons head tail =>
      rw [sqlTokens_group_cons, sqlTokens_group_cons, head.tokens, head.length_bound,
        laterTokens_eq tail]
  length_bound := by
    rw [bound_group, bound_group]
    exact flatMap_bound h

end Predicate

/-! ## Numbers of placeholders -/

namespace Sql

def Token.number? : Token → Option Nat
  | placeholder n => some n
  | _ => none

/-- The numbers of the placeholders among tokens. -/
def numbers (ts : List Token) : List Nat := ts.filterMap Token.number?

theorem numbers_append (ts us : List Token) : numbers (ts ++ us) = numbers ts ++ numbers us :=
  List.filterMap_append

theorem numbers_placeholders (first count : Nat) :
    numbers (placeholders first count) = List.range' first count := by
  fun_induction placeholders first count with
  | case1 first => rfl
  | case2 first => rfl
  | case3 first count h ih =>
    rw [List.range'_succ, ← ih]
    rfl

/-- The placeholders of a leaf are numbered through. -/
theorem Written.numbers_eq {q c : String} {n : Nat} {r : Restriction} {v : Value}
    {ts : List Token} {vs : List Value} (h : Written q c n r v ts vs) :
    numbers ts = List.range' n vs.length := by
  cases h with
  | isNull | isNotNull | compare | constant => rfl
  | membership =>
    have : numbers (placeholders n v.members.length ++ [.closeParen]) =
        List.range' n v.members.length := by
      rw [numbers_append, numbers_placeholders]
      exact List.append_nil _
    exact this

end Sql

namespace Predicate

theorem numbers_laterTokens {ps : List Predicate}
    (h : ∀ p ∈ ps, ∀ n, numbers (p.sqlTokens n).1 = List.range' n p.bound.length)
    (op : Combine) (n : Nat) :
    numbers (laterTokens op ps n) = List.range' n (ps.flatMap bound).length := by
  induction ps generalizing n with
  | nil => rfl
  | cons p ps ih =>
    have hp := h p List.mem_cons_self n
    have hps := ih (fun q hq => h q (List.mem_cons_of_mem p hq)) (n + p.bound.length)
    have : numbers (laterTokens op (p :: ps) n) =
        numbers ((p.sqlTokens n).1 ++ laterTokens op ps (n + p.bound.length)) := rfl
    rw [this, numbers_append, hp, hps, List.range'_append_1, List.flatMap_cons,
      List.length_append]

/-- The placeholders of a predicate are numbered through, one for each bound value. -/
theorem numbers_sqlTokens (p : Predicate) (n : Nat) :
    numbers (p.sqlTokens n).1 = List.range' n p.bound.length := by
  induction p using induct generalizing n with
  | leaf f r v => rw [sqlTokens, (f.written r v n).numbers_eq, FieldRef.sqlTokens_snd, bound_leaf]
  | group op ps ih =>
    cases ps with
    | nil => rfl
    | cons p ps =>
      have hp := ih p List.mem_cons_self n
      have hps := numbers_laterTokens (fun q hq => ih q (List.mem_cons_of_mem p hq)) op
        (n + p.bound.length)
      have : numbers ((group op (p :: ps)).sqlTokens n).1 =
          numbers (p.sqlTokens n).1 ++ numbers (laterTokens op ps (n + p.bound.length)) := by
        rw [sqlTokens_group_cons, ← List.append_assoc, ← numbers_append]
        exact (numbers_append _ [.closeParen]).trans (List.append_nil _)
      rw [this, hp, hps, List.range'_append_1, bound_group, List.flatMap_cons, List.length_append]

end Predicate

end SchemaFilter
