import SchemaFilter.Proofs.Predicate.Comparisons

/-!
# What predicates mean

The truth value of a predicate under an assignment of truth values to its leaves: a group by AND is
true if all its members are, and a group by OR if some member is.

Main definitions and results:

* `Predicate.eval`: the truth value of a predicate;
* `Predicate.eval_flat`: a flat group has the truth value of its members combined, also if it stands
  for a single member.
-/

namespace SchemaFilter

/-- Truth values combined. -/
def Combine.eval : Combine → List Bool → Bool
  | and, bs => bs.all id
  | or, bs => bs.any id

@[simp] theorem Combine.eval_singleton (op : Combine) (b : Bool) : op.eval [b] = b := by
  cases op <;> simp [eval]

namespace Predicate

mutual

/-- The truth value of a predicate, from those of its leaves. -/
def eval (truth : Comparison → Bool) : Predicate → Bool
  | leaf f r v => truth ⟨f, r, v⟩
  | group op ps => op.eval (evalAll truth ps)

def evalAll (truth : Comparison → Bool) : List Predicate → List Bool
  | [] => []
  | p :: ps => p.eval truth :: evalAll truth ps

end

theorem evalAll_eq_map (truth : Comparison → Bool) (ps : List Predicate) :
    evalAll truth ps = ps.map (eval truth) := by
  induction ps with
  | nil => rfl
  | cons p ps ih => rw [evalAll, ih, List.map_cons]

@[simp] theorem eval_group (truth : Comparison → Bool) (op : Combine) (ps : List Predicate) :
    (group op ps).eval truth = op.eval (ps.map (eval truth)) := by
  rw [eval, evalAll_eq_map]

@[simp] theorem eval_flat (truth : Comparison → Bool) (op : Combine) (ps : List Predicate) :
    (flat op ps).eval truth = op.eval (ps.map (eval truth)) := by
  by_cases h : ps.length = 1
  · obtain ⟨p, rfl⟩ := List.length_eq_one_iff.mp h
    rw [flat_singleton, List.map_singleton, Combine.eval_singleton]
  · rw [flat_eq_group h, eval_group]

end Predicate

end SchemaFilter
