import SchemaFilter.Json.Reader
import SchemaFilter.Number.Word
import SchemaFilter.Value.Basic

/-!
# Values as JSON

A value is stored as the JSON value nearest to it, without a mark of its kind: floats that are no
numbers become null, the kinds that have a text are stored as that text, and bytes as a list of
integers. Reading takes each JSON value for the first kind that can hold it, so that a value that
was written can come back as one of a simpler kind.
-/

namespace SchemaFilter.Value

mutual

/-- The JSON value that is stored. -/
def toJson : Value → Json
  | null => .null
  | bool b => .bool b
  | int i => .integer i.toInt
  | float x => if x.isFinite then .number x else .null
  | string s => .string s
  | uuid u => .string u.text
  | decimal d => .string d.text
  | dateTime m => .string m.storedText
  | date d => .string d.text
  | time t => .string t.text
  | list vs => .array (toJsons vs)
  | bytes bs => .array (bs.map fun b => .integer b.toNat)
  | json j => j

def toJsons : List Value → List Json
  | [] => []
  | v :: vs => v.toJson :: toJsons vs

end

mutual

/-- The value that a JSON value is read as: an integer beyond 64 bits with sign is a float, every
    array is a list and every object stays JSON. -/
def ofJson : Json → Value
  | .null => null
  | .bool b => bool b
  | .integer i =>
    match int64OfInt? i with
    | some n => int n
    | none => float (Binary64.ofInt i)
  | .number x => float x
  | .string s => string s
  | .array js => list (ofJsons js)
  | .object ms => json (.object ms)

def ofJsons : List Json → List Value
  | [] => []
  | j :: js => ofJson j :: ofJsons js

end

/-- Reads a value from a JSON text. -/
def parse? (text : String) : Option Value := (Json.parse? text).map ofJson

end SchemaFilter.Value
