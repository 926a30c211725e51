import SchemaFilter.Toml.Basic

/-!
# Records in TOML

Records with fixed fields are written as tables, or as arrays of their fields in order; a choice
among named alternatives is written as a string, or as a table with the name as its one key.
-/

namespace SchemaFilter.Toml

namespace Item

/-- The text of a string. -/
def string? : Item → Option String
  | string value => some value
  | _ => none

/-- The elements of an array; an array of tables is one. -/
def elements? : Item → Option (List Item)
  | array elements => some elements
  | tables elements => some (elements.map (table .header))
  | _ => none

/-- Whether there is nothing in a table or an array. -/
def isVacant : Item → Bool
  | table _ entries => entries.isEmpty
  | array elements => elements.isEmpty
  | _ => false

/-- The fields of a record. A table has no other keys; in an array the fields stand in the order of
    the keys, all of them if it has to be complete, and elements beyond them are ignored. -/
def record? (keys : List String) (complete : Bool) : Item → Option Table
  | table _ entries => if entries.all (keys.contains ·.1) then some entries else none
  | item => do
    let elements ← item.elements?
    if complete && elements.length < keys.length then none else some (keys.zip elements)

/-- An alternative, by its name. -/
def alternative? {α : Type} (ofName? : String → Option α) : Item → Option α
  | string name => ofName? name
  | table _ [(name, item)] => if item.isVacant then ofName? name else none
  | _ => none

end Item

/-- The field under a key, if it is there: `none` if it cannot be read, `some none` if it is not
    there. -/
def Table.field? {α : Type} (read? : Item → Option α) (key : String) (t : Table) :
    Option (Option α) :=
  (t.lookup key).mapM read?

end SchemaFilter.Toml
