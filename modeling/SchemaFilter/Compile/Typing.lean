import SchemaFilter.Compile.Error
import SchemaFilter.Filter.Rule

/-!
# Checking rules against a schema

A parameter rule has to name a scalar field whose type is the declared one. Membership compares a
single-valued field with a collection, ordering needs a single-valued field of an orderable type,
and equality takes fields as they are. A hop has to name a relation of the declared cardinality.

Nothing is read from the input here.
-/

namespace SchemaFilter

variable {α : Type}

/-- The value type that a restriction needs on a field of the given type and cardinality. -/
def Restriction.expectedType (r : Restriction) (s : ScalarType) (c : Cardinality) : ValueType :=
  if r.isMembership then .collection s else ⟨s, c⟩

/-- Whether a restriction compares a field only if that holds one value. -/
def Restriction.needsSingle (r : Restriction) : Bool := r.isMembership || r.isOrdering

/-- Checks a parameter rule on a model; the field it restricts. -/
def ParameterRule.check (s : Schema) (model : String) (r : ParameterRule α) :
    Except CompileError FieldInfo :=
  match s.resolve model r.field with
  | .error e => .error (.structuralMismatch model r.field (.notFound e))
  | .ok field =>
    match field.scalar? with
    | none => .error (.structuralMismatch model r.field .isRelation)
    | some scalar =>
      let expected := r.restriction.expectedType scalar field.cardinality
      if field.cardinality.isCollection && r.restriction.needsSingle then
        .error
          (.typeMismatch model r.field (.singleValued r.restriction) (.type (.collection scalar)))
      else if r.valueType ≠ expected then
        .error (.typeMismatch model r.field (.type expected) (.type r.valueType))
      else if r.restriction.isOrdering && !scalar.isOrderable then
        .error (.typeMismatch model r.field (.orderable r.restriction) (.scalar scalar))
      else .ok field

/-- Checks a hop from a model; the relation field it walks. -/
def RelationHop.check (s : Schema) (model : String) (h : RelationHop α) :
    Except CompileError FieldInfo :=
  match s.resolve model h.name with
  | .error e => .error (.structuralMismatch model h.name (.notFound e))
  | .ok field =>
    if !field.type.isRelation then
      .error (.structuralMismatch model h.name (.notRelation field.type))
    else if field.cardinality ≠ h.cardinality then
      .error (.structuralMismatch model h.name (.cardinality h.cardinality field.cardinality))
    else .ok field

end SchemaFilter
