/-!
# Diagnostics

What an error offers beside its message: a stable code, advice, the messages of the errors it
gathers, and the places of the text it points at.
-/

namespace SchemaFilter

/-- A remark on a place of a text, counted in bytes. -/
structure Label where
  text : String
  offset : Nat
  length : Nat
  deriving DecidableEq, Repr

/-- An error as it is reported. `related` and `labels` are absent for the errors that never have
    any. -/
structure Diagnostic where
  code : String
  help : Option String := none
  related : Option (List String) := none
  labels : Option (List Label) := none
  deriving DecidableEq, Repr

end SchemaFilter
