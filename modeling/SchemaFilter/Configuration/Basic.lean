import SchemaFilter.Configuration.LogFormat
import SchemaFilter.ErrorMode
import SchemaFilter.NameTable

/-!
# Configurations

A configuration has four settings, and environments that set some of them anew. An environment is
applied once: it leaves the configuration when it is.
-/

namespace SchemaFilter

/-- What the section `schema` sets. -/
structure SchemaSection where
  path : Option String
  deriving DecidableEq, Repr

/-- What the section `compile` sets. -/
structure CompileSection where
  errorMode : Option ErrorMode
  deriving DecidableEq, Repr

/-- What the section `debug` sets. -/
structure DebugSection where
  logLevel : Option String
  logFormat : Option LogFormat
  deriving DecidableEq, Repr

/-- The sections of an environment. -/
structure Environment where
  name : String
  schema : Option SchemaSection
  compile : Option CompileSection
  debug : Option DebugSection
  deriving DecidableEq, Repr

instance : Named Environment := ⟨Environment.name⟩

namespace Environment

/-- The schema path that an environment sets. -/
def path (e : Environment) : Option String := e.schema.bind (·.path)

/-- The error mode that an environment sets. -/
def errorMode (e : Environment) : Option ErrorMode := e.compile.bind (·.errorMode)

/-- The log level that an environment sets. -/
def logLevel (e : Environment) : Option String := e.debug.bind (·.logLevel)

/-- The log format that an environment sets. -/
def logFormat (e : Environment) : Option LogFormat := e.debug.bind (·.logFormat)

end Environment

/-- The settings of a project, and its environments. -/
structure Configuration where
  /-- Where the schema is. -/
  path : String := "schema.criters"
  errorMode : ErrorMode := .failFast
  logLevel : String := "warn"
  logFormat : LogFormat := .compact
  environments : NameTable Environment := .empty

namespace Configuration

/-- Takes an environment out of the configuration and sets what it sets. A name that no environment
    has changes nothing. -/
def withEnvironment (c : Configuration) (name : String) : Configuration :=
  match c.environments.find? name with
  | none => c
  | some e =>
    { path := e.path.getD c.path
      errorMode := e.errorMode.getD c.errorMode
      logLevel := e.logLevel.getD c.logLevel
      logFormat := e.logFormat.getD c.logFormat
      environments := c.environments.erase name }

end Configuration

end SchemaFilter
