import SchemaFilter.Configuration.Expansion
import SchemaFilter.Configuration.LogFormat

/-!
# Log settings from the environment

`CRITERS_DEBUG`, `CRITERS_LOG_LEVEL` and `CRITERS_LOG_FORMAT` choose what is logged. A value that is
not understood counts as not set.
-/

namespace SchemaFilter.Logging

/-- The log levels, the most detailed one first. -/
def levels : List String := ["trace", "debug", "info", "warn", "error"]

/-- Whether `CRITERS_DEBUG` says yes, in letters of either case. -/
def isDebug (vars : Configuration.Variables) : Bool :=
  match vars "CRITERS_DEBUG" with
  | some value => ["true", "1", "yes"].contains value.toLower
  | none => false

/-- The level that a text names in letters of either case. Only the letters of ASCII have to be
    lowered: the one other letter that would become one of them, the Kelvin sign, becomes a `k`, and
    no level has that. -/
def level? (text : String) : Option String := levels.find? (· == text.toLower)

/-- The log level. -/
def level (vars : Configuration.Variables) : String :=
  ((vars "CRITERS_LOG_LEVEL").bind level?).getD (if isDebug vars then "debug" else "warn")

/-- The log format. -/
def format (vars : Configuration.Variables) : LogFormat :=
  ((vars "CRITERS_LOG_FORMAT").bind fun text => (LogFormat.ofText text).toOption).getD .compact

/-- The directive that sets a level for every part of the library. -/
def directive (level : String) : String :=
  s!"criters={level},criters_query={level},criters_schema={level}"

end SchemaFilter.Logging
