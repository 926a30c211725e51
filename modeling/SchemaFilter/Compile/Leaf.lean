import SchemaFilter.Compile.Error
import SchemaFilter.Predicate.Basic

/-!
# Leaves

A leaf is built from a checked field and the value that was read, after the value is held against
the restriction: equality takes what the field can hold, ordering a value in a total order, and
membership a list of single values, none of them null.
-/

namespace SchemaFilter

/-- What a value has to be for a restriction of a field of the given type; the expectation it fails,
    if it does. -/
def Restriction.unmet? (r : Restriction) (s : ScalarType) (v : Value) : Option Expectation :=
  match r with
  | .equals | .notEquals => if v.fits s then none else some (.scalarValue s)
  | .greaterThan | .greaterThanOrEquals | .lessThan | .lessThanOrEquals =>
    if v.isOrdered && v.fits s then none else some (.orderedValue s)
  | .isIn | .notIn =>
    match v.list? with
    | some elements =>
      if elements.all fun e => !e.isNull && e.fitsSingle s then none else some (.listOf s)
    | none => some (.listOf s)

/-- The leaf that compares a field, read from the given table or join, with a value. -/
def FieldInfo.leaf (f : FieldInfo) (qualifier : String) (r : Restriction) (v : Value) :
    Except CompileError Predicate :=
  match f.scalar? with
  | none => .error (.structuralMismatch f.model f.field .relationCompared)
  | some scalar =>
    match r.unmet? scalar v with
    | some expected => .error (.typeMismatch f.model f.field expected (.value v.kind))
    | none => .ok (.leaf ⟨f.model, f.field, f.column, qualifier⟩ r v)

end SchemaFilter
