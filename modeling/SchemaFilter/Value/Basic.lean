import SchemaFilter.Calendar
import SchemaFilter.Json.Basic
import SchemaFilter.Number.FixedPoint
import SchemaFilter.Schema.Types
import SchemaFilter.Uuid

/-!
# Filter values

The values that filters compare fields with, and which field types they suit. A value *fits* a
scalar type if a field of that type can hold it: null fits every type, and a list fits if its
elements do and none of them is a list itself. Ordering comparisons need a value that stands in a
total order, which NaN does not.
-/

namespace SchemaFilter

/-- A value that a filter compares with. -/
inductive Value where
  | null
  | bool (value : Bool)
  | int (value : Int64)
  | float (value : Binary64)
  | string (value : String)
  | uuid (value : Uuid)
  | decimal (value : FixedPoint)
  | dateTime (value : Moment)
  | date (value : Date)
  | time (value : TimeOfDay)
  | list (elements : List Value)
  | bytes (value : List UInt8)
  | json (value : Json)
  deriving Inhabited

namespace Value

/-- The kinds of values. -/
inductive Kind where
  | null | bool | int | float | string | uuid | decimal | dateTime | date | time
  | list | bytes | json
  deriving DecidableEq, Repr

def Kind.name : Kind → String
  | null => "null"
  | bool => "bool"
  | int => "int"
  | float => "float"
  | string => "string"
  | uuid => "uuid"
  | decimal => "decimal"
  | dateTime => "datetime"
  | date => "date"
  | time => "time"
  | list => "list"
  | bytes => "bytes"
  | json => "json"

def kind : Value → Kind
  | null => .null
  | bool _ => .bool
  | int _ => .int
  | float _ => .float
  | string _ => .string
  | uuid _ => .uuid
  | decimal _ => .decimal
  | dateTime _ => .dateTime
  | date _ => .date
  | time _ => .time
  | list _ => .list
  | bytes _ => .bytes
  | json _ => .json

def isNull : Value → Bool
  | null => true
  | _ => false

/-- The elements, if the value is a list. -/
def list? : Value → Option (List Value)
  | list elements => some elements
  | _ => none

def isList (v : Value) : Bool := v.list?.isSome

/-! ## Fitting a type -/

/-- Whether a single value, not a list, can be held by a field of the type. -/
def fitsSingle (s : ScalarType) : Value → Bool
  | null => true
  | bool _ => s == .boolean
  | int _ => s == .int || s == .bigInt
  | float _ => s == .float
  | string _ => s == .string
  | uuid _ => s == .uuid
  | decimal _ => s == .decimal
  | dateTime _ => s == .dateTime
  | date _ => s == .date
  | time _ => s == .time
  | bytes _ => s == .bytes
  | json _ => s == .json
  | list _ => false

/-- Whether a field of the type can hold the value, or all of its elements. -/
def fits (s : ScalarType) : Value → Bool
  | list elements => elements.all (fitsSingle s)
  | v => fitsSingle s v

/-- Whether the value stands in a total order. -/
def isOrdered : Value → Bool
  | int _ | string _ | uuid _ | decimal _ | dateTime _ | date _ | time _ => true
  | float x => !x.isNaN
  | null | bool _ | list _ | bytes _ | json _ => false

/-! ## Equality -/

mutual

/-- Equality of values in which floats are compared as numbers, so that a value with a NaN in it
    does not even equal itself. -/
def sameAs : Value → Value → Bool
  | null, null => true
  | bool a, bool b => a == b
  | int a, int b => a == b
  | float a, float b => a.numericallyEqual b
  | string a, string b => a == b
  | uuid a, uuid b => a == b
  | decimal a, decimal b =>
    a.mantissa * powTen b.scale == b.mantissa * powTen a.scale
  | dateTime a, dateTime b => a == b
  | date a, date b => a == b
  | time a, time b => a == b
  | list as, list bs => allSameAs as bs
  | bytes as, bytes bs => as == bs
  | json a, json b => a.chars == b.chars
  | _, _ => false

def allSameAs : List Value → List Value → Bool
  | [], [] => true
  | a :: as, b :: bs => a.sameAs b && allSameAs as bs
  | _, _ => false

end

end Value

end SchemaFilter
