import SchemaFilter.Json.Reader

/-!
# Records in JSON

Records with fixed fields are stored as objects, and a choice among named alternatives as a string,
or as an object whose one key is the name and whose value is what comes with it. A record is also
read from an array of its fields in order. In an object, other keys are ignored with all that is
under them, but a field may be neither missing nor given twice.

As in `Source.toJson?`, `room` is how deep arrays and objects may be nested.
-/

namespace SchemaFilter.Json.Source

/-- The text of a string. -/
def string? : Source → Option String
  | .string units => decodeString? units
  | _ => none

/-- The one value that stands under a key. -/
def single? (members : List (String × Source)) (key : String) : Option Source :=
  match members.filter (·.1 == key) with
  | [(_, value)] => some value
  | _ => none

/-- The fields of a record, in the order of their names. -/
def record? (names : List String) : (room : Nat) → Source → Option (List Source)
  | _ + 1, .array es => if es.length = names.length then some es else none
  | _ + 1, .object ms => do
    let members ← ms.mapM fun (key, value) => (decodeString? key).map (·, value)
    names.mapM (single? members)
  | _, _ => none

/-- An alternative that comes with nothing, by its name. -/
def alternative? {α : Type} (ofName? : String → Option α) : (room : Nat) → Source → Option α
  | _, .string units => (decodeString? units).bind ofName?
  | _ + 1, .object [(key, .null)] => (decodeString? key).bind ofName?
  | _, _ => none

/-- The elements of an array. -/
def elements? : (room : Nat) → Source → Option (List Source)
  | _ + 1, .array es => some es
  | _, _ => none

/-- A natural number of at most 64 bits, written as an integer. -/
def natural? : Source → Option Nat
  | .number n =>
    match n.value? with
    | some (.integer i) => if 0 ≤ i then some i.toNat else none
    | _ => none
  | _ => none

end SchemaFilter.Json.Source
