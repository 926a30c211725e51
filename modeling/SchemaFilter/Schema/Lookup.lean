import SchemaFilter.Schema.Basic

/-!
# Looking up fields

What the compilation of filters asks of a schema: whether a model is declared, what one of its
fields looks like, and under which name it is stored.
-/

namespace SchemaFilter

/-- What a schema says about one field. -/
structure FieldInfo where
  model : String
  field : String
  column : String
  type : FieldType
  cardinality : Cardinality
  optional : Bool
  deriving DecidableEq, Repr, Inhabited

/-- The related model, if the field is a relation. -/
def FieldInfo.target? (f : FieldInfo) : Option String := f.type.target?

def FieldInfo.scalar? (f : FieldInfo) : Option ScalarType := f.type.scalar?

/-- Why a field is not found. -/
inductive LookupError where
  | unknownModel (model : String)
  | unknownField (model field : String)
  deriving DecidableEq, Repr

def LookupError.message : LookupError → String
  | unknownModel model => s!"unknown model `{model}`"
  | unknownField model field => s!"model `{model}` has no field `{field}`"

namespace Schema

/-- What is to be said about a field of a model. -/
def fieldInfo (m : Model) (f : Field) : FieldInfo :=
  ⟨m.name, f.name, f.column, f.type, f.cardinality, f.modifier.isOptional⟩

/-- Looks up a field by the names of its model and itself. -/
def resolve (s : Schema) (model field : String) : Except LookupError FieldInfo :=
  match s.model? model with
  | none => .error (.unknownModel model)
  | some m =>
    match m.field? field with
    | none => .error (.unknownField model field)
    | some f => .ok (fieldInfo m f)

/-- The name in storage of a declared model. -/
def table? (s : Schema) (model : String) : Option String := (s.model? model).map (·.table)

end Schema

end SchemaFilter
