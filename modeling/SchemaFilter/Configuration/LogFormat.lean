import SchemaFilter.Schema.Error

/-!
# Log formats
-/

namespace SchemaFilter

/-- How log entries are written. -/
inductive LogFormat where
  /-- One JSON object a line. -/
  | json
  /-- Several lines for people to read. -/
  | pretty
  /-- One line for people to read. -/
  | compact
  deriving DecidableEq, Repr, Inhabited

namespace LogFormat

def name : LogFormat → String
  | json => "json"
  | pretty => "pretty"
  | compact => "compact"

/-- The format of the given name, in lower case. -/
def ofName? : String → Option LogFormat
  | "json" => some json
  | "pretty" => some pretty
  | "compact" => some compact
  | _ => none

/-- The format that a text names in letters of either case. -/
def ofText (text : String) : Except SchemaError LogFormat :=
  match ofName? text.toLower with
  | some format => .ok format
  | none => .error (.invalidSetting (.unknownLogFormat text.toLower))

end LogFormat

end SchemaFilter
