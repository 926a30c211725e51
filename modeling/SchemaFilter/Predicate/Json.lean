import SchemaFilter.Json.Record
import SchemaFilter.Predicate.Basic
import SchemaFilter.Value.Json

/-!
# Predicates as JSON

A predicate is stored as `Leaf` with a field, a restriction and a value, or as `Group` with an
operator and its members; restrictions and operators go by their names. Values are stored and read
as `Value.toJson` and `Value.ofJson` say.
-/

namespace SchemaFilter

open Json

def FieldRef.toJson (f : FieldRef) : Json :=
  .object [("model", .string f.model), ("field", .string f.field), ("column", .string f.column),
    ("qualifier", .string f.qualifier)]

def FieldRef.ofSource? (room : Nat) (source : Source) : Option FieldRef := do
  match ← source.record? ["model", "field", "column", "qualifier"] room with
  | [m, f, c, q] => return ⟨← m.string?, ← f.string?, ← c.string?, ← q.string?⟩
  | _ => none

def Restriction.ofSource? (room : Nat) (source : Source) : Option Restriction :=
  source.alternative? Restriction.ofName? room

def Combine.ofSource? (room : Nat) (source : Source) : Option Combine :=
  source.alternative? Combine.ofName? room

namespace Predicate

mutual

/-- The JSON value that is stored. -/
def toJson : Predicate → Json
  | leaf f r v =>
    .object [("Leaf", .object
      [("field", f.toJson), ("restriction", .string r.name), ("value", v.toJson)])]
  | group op ps =>
    .object [("Group", .object [("op", .string op.name), ("children", .array (toJsons ps))])]

def toJsons : List Predicate → List Json
  | [] => []
  | p :: ps => p.toJson :: toJsons ps

end

/-- The predicate of a JSON source. A predicate of either form is nested three deep: the object that
    names the form, its record, and the field or the list of members in that. -/
def ofSource? : (room : Nat) → Source → Option Predicate
  | room + 3, .object [(key, payload)] => do
    match ← decodeString? key with
    | "Leaf" =>
      match ← payload.record? ["field", "restriction", "value"] (room + 2) with
      | [f, r, v] =>
        return .leaf (← FieldRef.ofSource? (room + 1) f) (← Restriction.ofSource? (room + 1) r)
          (.ofJson (← v.toJson? (room + 1)))
      | _ => none
    | "Group" =>
      match ← payload.record? ["op", "children"] (room + 2) with
      | [op, children] =>
        let op ← Combine.ofSource? (room + 1) op
        let members ← children.elements? (room + 1)
        return .group op (← members.mapM (ofSource? room))
      | _ => none
    | _ => none
  | _, _ => none

end Predicate

end SchemaFilter
