import SchemaFilter.NameTable
import SchemaFilter.Schema.Types
import SchemaFilter.Text.Span

/-!
# Schemas

A schema declares models, a model declares fields, and both carry attributes: `@name` on a field
and `@@name` on a model, with arguments. Models and fields are kept in tables under their names, in
the order of their declaration.

Main definitions:

* `Schema.add`, `Model.addField`, `Schema.merge`: a later declaration of a name replaces the earlier
  one in its place;
* `Field.column`, `Model.table`: the names in storage, which `@map` and `@@map` give.
-/

namespace SchemaFilter

/-- A name in a schema, with its place. -/
structure Ident where
  name : String
  span : Span
  deriving DecidableEq, Repr, Inhabited

/-- A documentation comment. -/
structure Documentation where
  text : String
  span : Span
  deriving DecidableEq, Repr, Inhabited

/-! ## Attributes -/

/-- An argument of an attribute. -/
inductive AttributeValue where
  | string (value : String)
  | int (value : Int64)
  | bool (value : Bool)
  | ident (name : String)
  deriving DecidableEq, Repr, Inhabited

namespace AttributeValue

def string? : AttributeValue → Option String
  | string s => some s
  | _ => none

def int? : AttributeValue → Option Int64
  | int i => some i
  | _ => none

def ident? : AttributeValue → Option String
  | ident s => some s
  | _ => none

end AttributeValue

/-- An attribute of a field or a model. -/
structure Attribute where
  ident : Ident
  args : List AttributeValue
  span : Span
  deriving DecidableEq, Repr, Inhabited

def Attribute.name (a : Attribute) : String := a.ident.name

/-- The attribute of the given name that comes first. -/
def findAttribute? (attributes : List Attribute) (name : String) : Option Attribute :=
  attributes.find? (·.name == name)

/-- The name in storage of what is called `name`: the first `map` attribute's first argument if that
    is a string, else the name itself. -/
def storedName (attributes : List Attribute) (name : String) : String :=
  (((findAttribute? attributes "map").bind (·.args.head?)).bind (·.string?)).getD name

/-! ## Fields -/

/-- A field of a model. -/
structure Field where
  ident : Ident
  type : FieldType
  modifier : Modifier
  attributes : List Attribute
  documentation : Option Documentation
  span : Span
  deriving DecidableEq, Repr, Inhabited

namespace Field

def name (f : Field) : String := f.ident.name

instance : Named Field := ⟨name⟩

/-- Whether the field is marked as (part of) the primary key. -/
def isId (f : Field) : Bool := f.attributes.any (·.name == "id")

def isRelation (f : Field) : Bool := f.type.isRelation

def cardinality (f : Field) : Cardinality := f.modifier.cardinality

/-- The name of the field's column in storage. -/
def column (f : Field) : String := storedName f.attributes f.name

/-- How an attribute is shown: arguments are only hinted at. -/
def attributeText (a : Attribute) : String :=
  " @" ++ a.name ++ if a.args.isEmpty then "" else "(...)"

/-- The field on one line. -/
def text (f : Field) : String :=
  f.name ++ " " ++ f.type.name ++ f.modifier.mark ++ String.join (f.attributes.map attributeText)

end Field

/-! ## Models -/

/-- A model: a table of storage, or a collection of documents. -/
structure Model where
  ident : Ident
  fields : NameTable Field
  attributes : List Attribute
  documentation : Option Documentation
  span : Span
  deriving Inhabited

namespace Model

def name (m : Model) : String := m.ident.name

instance : Named Model := ⟨name⟩

/-- A model without fields, attributes or a place in a text. -/
def ofName (name : String) : Model := ⟨⟨name, {}⟩, .empty, [], none, {}⟩

/-- The field of the given name. -/
def field? (m : Model) (name : String) : Option Field := m.fields.find? name

/-- Declares a field; one of the same name is replaced. -/
def addField (m : Model) (f : Field) : Model := { m with fields := m.fields.insert f }

theorem name_addField (m : Model) (f : Field) :
    Named.name (m.addField f) = Named.name m := rfl

/-- The name of the model's table in storage. -/
def table (m : Model) : String := storedName m.attributes m.name

def idFields (m : Model) : List Field := m.fields.items.filter (·.isId)

def relationFields (m : Model) : List Field := m.fields.items.filter (·.isRelation)

def scalarFields (m : Model) : List Field := m.fields.items.filter (!·.isRelation)

end Model

/-! ## Schemas -/

/-- The models that filters are compiled against. -/
structure Schema where
  models : NameTable Model
  deriving Inhabited

namespace Schema

/-- The schema without models. -/
def empty : Schema := ⟨.empty⟩

theorem eq_of_items_eq {s t : Schema} (h : s.models.items = t.models.items) : s = t := by
  cases s
  cases t
  exact congrArg mk (NameTable.eq_of_items_eq h)

/-- Declares a model; one of the same name is replaced. -/
def add (s : Schema) (m : Model) : Schema := ⟨s.models.insert m⟩

/-- The model of the given name. -/
def model? (s : Schema) (name : String) : Option Model := s.models.find? name

/-- Whether a model of the given name is declared. -/
def declares (s : Schema) (name : String) : Bool := s.models.contains name

/-- The names of the models in order. -/
def modelNames (s : Schema) : List String := s.models.names

/-- Declares a field on the model stored under a name; without one nothing changes. -/
def addField (s : Schema) (model : String) (f : Field) : Schema :=
  ⟨s.models.modify model (·.addField f) (Model.name_addField · f)⟩

/-- Takes over the models of another schema, in their order. -/
def merge (s t : Schema) : Schema := ⟨s.models.merge t.models⟩

/-- How many models, fields and relation fields there are. -/
def text (s : Schema) : String :=
  let fields := (s.models.items.flatMap (·.fields.items)).length
  let relations := (s.models.items.flatMap (·.relationFields)).length
  s!"Schema({s.models.size} models, {fields} fields, {relations} relations)"

end Schema

end SchemaFilter
