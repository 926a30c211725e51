import SchemaFilter.Filter.Rule

/-!
# Types of read values

The types that a rule's value can be declared to have, and the field type that each is compared
with. Optional values are compared as their base type, null standing for absence; a list is compared
as a collection of its elements. Lists are not nested, and byte strings are not elements of lists.

A rule is written with an accessor, which reads data of such a type off the input. The type gives
the rule its declared type, and the data the value.
-/

namespace SchemaFilter

/-- The type of what a rule reads off its input. -/
inductive AccessorType where
  | scalar (type : ScalarType)
  | optional (base : AccessorType)
  | list (element : AccessorType)
  deriving DecidableEq, Repr

namespace AccessorType

/-- The declared type of the values. -/
def valueType : AccessorType → ValueType
  | scalar s => .single s
  | optional t => t.valueType
  | list t => .collection t.valueType.scalar

/-- Whether lists of the type can be read. -/
def isElement : AccessorType → Bool
  | scalar s => s != .bytes
  | optional t => t.isElement
  | list _ => false

/-- Whether every list in the type is a list of elements. -/
def isReadable : AccessorType → Bool
  | scalar _ => true
  | optional t => t.isReadable
  | list t => t.isElement

end AccessorType

/-! ## Data -/

/-- What is read as one value of a type. -/
def ScalarType.Data : ScalarType → Type
  | int => Int32
  | bigInt => Int64
  | float => Binary64
  | decimal => FixedPoint
  | string => String
  | boolean => Bool
  | dateTime => Moment
  | date => Date
  | time => TimeOfDay
  | json => Json
  | bytes => List UInt8
  | uuid => Uuid

/-- The value that data stands for. Both integer types have one kind of values. -/
def ScalarType.toValue : (s : ScalarType) → s.Data → Value
  | int, n => .int (Int32.toInt64 n)
  | bigInt, n => .int n
  | float, x => .float x
  | decimal, d => .decimal d
  | string, s => .string s
  | boolean, b => .bool b
  | dateTime, m => .dateTime m
  | date, d => .date d
  | time, t => .time t
  | json, j => .json j
  | bytes, bs => .bytes bs
  | uuid, u => .uuid u

namespace AccessorType

/-- What is read at a type. -/
def Data : AccessorType → Type
  | scalar s => s.Data
  | optional t => Option t.Data
  | list t => List t.Data

/-- The value that data stands for. -/
def toValue : (t : AccessorType) → t.Data → Value
  | scalar s, x => s.toValue x
  | optional _, none => .null
  | optional t, some x => t.toValue x
  | list t, xs => .list (xs.map t.toValue)

end AccessorType

/-- A function that reads data of a type off the input. -/
structure Accessor (α : Type) where
  type : AccessorType
  isReadable : type.isReadable
  get : α → type.Data

/-- The rule that compares a field with what an accessor reads. -/
def ParameterRule.reading {α : Type} (field : String) (r : Restriction) (a : Accessor α)
    (group : String := defaultGroup) (combine : Combine := .and) : ParameterRule α where
  field
  restriction := r
  group
  combine
  valueType := a.type.valueType
  read x := a.type.toValue (a.get x)

end SchemaFilter
