import SchemaFilter.Schema.Reader

/-!
# Validation of schemas

A schema is valid if every relation leads to a declared model, every model has a field and at most
one `@id` field, no relation carries `@id`, and every `@map` and `@@map` has exactly one string.

A validator walks over a schema and notes what is wrong, model by model and in each from the outside
in. It can be used for one schema after the other.

Main definitions:

* `Validator.validate`: the answer to a schema, and the validator after it;
* `Schema.validate`: the answer of a new validator.
-/

namespace SchemaFilter

/-- Whether the arguments are one string and nothing else. -/
def Attribute.hasOneString (a : Attribute) : Bool :=
  a.args.length == 1 && (a.args.head?.bind (·.string?)).isSome

/-- A validator, with the errors that it has noted. -/
structure Validator where
  errors : List SchemaError := []
  deriving Inhabited

namespace Validator

/-- Notes an error. -/
def note (v : Validator) (e : SchemaError) : Validator := { v with errors := v.errors ++ [e] }

/-- Checks the arguments of a `map` attribute. -/
def checkMap (fault : AttributeFault) (v : Validator) (a : Attribute) : Validator :=
  if a.hasOneString then v else v.note (.invalidAttribute a.name fault)

/-- Checks an attribute of a field. -/
def checkFieldAttribute (model : String) (f : Field) (v : Validator) (a : Attribute) : Validator :=
  if a.name = "id" ∧ f.isRelation then
    v.note (.invalidAttribute "id" (.idOnRelation model f.name))
  else if a.name = "map" then v.checkMap (.fieldMapArgument model f.name) a
  else v

/-- Checks that the related model of a field is declared. -/
def checkTarget (s : Schema) (model : String) (f : Field) (v : Validator) : Validator :=
  match f.type.target? with
  | some target => if s.declares target then v else v.note (.unknownType model f.name target)
  | none => v

def checkField (s : Schema) (model : String) (v : Validator) (f : Field) : Validator :=
  f.attributes.foldl (checkFieldAttribute model f) (v.checkTarget s model f)

/-- Checks that a model has a field. -/
def checkNonempty (m : Model) (v : Validator) : Validator :=
  if m.fields.isEmpty then v.note (.invalidModel m.name .noField) else v

/-- Checks that a model has at most one `@id` field. -/
def checkIds (m : Model) (v : Validator) : Validator :=
  if 1 < m.idFields.length then
    v.note (.invalidModel m.name (.severalIds (m.idFields.map (·.name))))
  else v

/-- Checks an attribute of a model. -/
def checkModelAttribute (m : Model) (v : Validator) (a : Attribute) : Validator :=
  if a.name = "map" then v.checkMap (.modelMapArgument m.name) a else v

def checkModel (s : Schema) (v : Validator) (m : Model) : Validator :=
  let v := (v.checkNonempty m).checkIds m
  let v := m.fields.items.foldl (checkField s m.name) v
  m.attributes.foldl (checkModelAttribute m) v

/-- The answer to a schema, and the validator after it: the schema itself if nothing is wrong with
    it, or else all that is. What was noted before is dropped first, and what is reported is not
    kept. -/
def validate (v : Validator) (s : Schema) : Except SchemaError Schema × Validator :=
  let v := s.models.items.foldl (checkModel s) { v with errors := [] }
  if v.errors.isEmpty then (.ok s, v)
  else (.error (.gather v.errors), { v with errors := [] })

end Validator

namespace Schema

/-- The schema itself if it is valid, or else all that is wrong with it. -/
def validate (s : Schema) : Except SchemaError Schema := (Validator.validate {} s).1

/-- The valid schema of a text. -/
def parseValid (text : String) : Except SchemaError Schema := do (← parse text).validate

end Schema

end SchemaFilter
