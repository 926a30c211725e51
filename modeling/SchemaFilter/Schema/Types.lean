/-!
# Types of fields and values

The scalar types a field can hold, how many values it holds, and the type a filter declares for the
value it compares with. `Int` and `BigInt` are distinct types, as are all others.
-/

namespace SchemaFilter

/-- What one value of a field is. -/
inductive ScalarType where
  | int | bigInt | float | decimal | string | boolean | dateTime | date | time | json | bytes | uuid
  deriving DecidableEq, Repr, Inhabited

namespace ScalarType

/-- All scalar types in their listing order. -/
def all : List ScalarType :=
  [int, bigInt, float, decimal, string, boolean, dateTime, date, time, json, bytes, uuid]

/-- The name under which a type is displayed. -/
def name : ScalarType → String
  | int => "Int"
  | bigInt => "BigInt"
  | float => "Float"
  | decimal => "Decimal"
  | string => "String"
  | boolean => "Boolean"
  | dateTime => "DateTime"
  | date => "Date"
  | time => "Time"
  | json => "Json"
  | bytes => "Bytes"
  | uuid => "Uuid"

/-- The type a name stands for in a schema. Four types have a second name. -/
def ofName? : String → Option ScalarType
  | "Int" | "Integer" => some int
  | "BigInt" | "Long" => some bigInt
  | "Float" => some float
  | "Decimal" => some decimal
  | "String" => some string
  | "Boolean" | "Bool" => some boolean
  | "DateTime" => some dateTime
  | "Date" => some date
  | "Time" => some time
  | "Json" => some json
  | "Bytes" => some bytes
  | "Uuid" | "UUID" => some uuid
  | _ => none

/-- A type is read back from its display name. -/
@[simp] theorem ofName?_name (s : ScalarType) : ofName? s.name = some s := by
  cases s <;> rfl

/-- Whether the values of the type have an order that filters can compare by. -/
def isOrderable : ScalarType → Bool
  | boolean | json | bytes => false
  | _ => true

end ScalarType

/-- How many values a field holds, or how many rows a relation leads to. -/
inductive Cardinality where
  | single | collection
  deriving DecidableEq, Repr, Inhabited

namespace Cardinality

def isCollection : Cardinality → Bool
  | single => false
  | collection => true

def text : Cardinality → String
  | single => "single"
  | collection => "collection"

/-- The cardinality of what is a collection or is not. -/
def ofBool (isCollection : Bool) : Cardinality := if isCollection then collection else single

end Cardinality

/-- The type of a compared value: one scalar, or a collection of scalars. -/
structure ValueType where
  scalar : ScalarType
  cardinality : Cardinality
  deriving DecidableEq, Repr, Inhabited

namespace ValueType

def single (s : ScalarType) : ValueType := ⟨s, .single⟩

def collection (s : ScalarType) : ValueType := ⟨s, .collection⟩

def text (t : ValueType) : String :=
  match t.cardinality with
  | .single => t.scalar.name
  | .collection => t.scalar.name ++ "[]"

end ValueType

/-- The declared type of a field: scalar, or the name of the related model. -/
inductive FieldType where
  | scalar (type : ScalarType)
  | relation (model : String)
  deriving DecidableEq, Repr, Inhabited

namespace FieldType

/-- What a type name written in a schema means: a name that is no scalar type's is a model's. -/
def ofName (name : String) : FieldType :=
  match ScalarType.ofName? name with
  | some s => .scalar s
  | none => .relation name

def name : FieldType → String
  | scalar s => s.name
  | relation model => model

def scalar? : FieldType → Option ScalarType
  | scalar s => some s
  | relation _ => none

/-- The related model, if the field is a relation. -/
def target? : FieldType → Option String
  | scalar _ => none
  | relation model => some model

def isRelation : FieldType → Bool
  | scalar _ => false
  | relation _ => true

end FieldType

/-- What is written after a type name: nothing, `?`, `[]` or `[]?`. -/
inductive Modifier where
  | required | optional | list | optionalList
  deriving DecidableEq, Repr, Inhabited

namespace Modifier

def isOptional : Modifier → Bool
  | optional | optionalList => true
  | required | list => false

def isList : Modifier → Bool
  | list | optionalList => true
  | required | optional => false

/-- The modifier with the given marks. -/
def ofMarks : (isList isOptional : Bool) → Modifier
  | false, false => required
  | false, true => optional
  | true, false => list
  | true, true => optionalList

@[simp] theorem isList_ofMarks (isList isOptional : Bool) :
    (ofMarks isList isOptional).isList = isList := by
  cases isList <;> cases isOptional <;> rfl

@[simp] theorem isOptional_ofMarks (isList isOptional : Bool) :
    (ofMarks isList isOptional).isOptional = isOptional := by
  cases isList <;> cases isOptional <;> rfl

def name : Modifier → String
  | required => "Required"
  | optional => "Optional"
  | list => "List"
  | optionalList => "OptionalList"

/-- The modifier as it is written. -/
def mark : Modifier → String
  | required => ""
  | optional => "?"
  | list => "[]"
  | optionalList => "[]?"

def cardinality (m : Modifier) : Cardinality := .ofBool m.isList

end Modifier

end SchemaFilter
