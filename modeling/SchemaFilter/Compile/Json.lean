import SchemaFilter.Compile.Run
import SchemaFilter.Json.Record

/-!
# Roots and joins as JSON
-/

namespace SchemaFilter

open Json

/-- The name of a cardinality in stored joins. -/
def Cardinality.ofListing? : String → Option Cardinality
  | "Single" => some .single
  | "Collection" => some .collection
  | _ => none

def Root.ofSource? (room : Nat) (source : Source) : Option Root := do
  match ← source.record? ["model", "table"] room with
  | [m, t] => return ⟨← m.string?, ← t.string?⟩
  | _ => none

def Join.ofSource? (room : Nat) (source : Source) : Option Join := do
  match ← source.record? ["rule", "relations", "target", "cardinality"] room with
  | [rule, relations, target, cardinality] =>
    let names ← (← relations.elements? (room - 1)).mapM Source.string?
    return ⟨← rule.natural?, names, ← target.string?,
      ← cardinality.alternative? Cardinality.ofListing? (room - 1)⟩
  | _ => none

end SchemaFilter
