import SchemaFilter.Configuration.Basic
import SchemaFilter.Configuration.Expansion
import SchemaFilter.Toml.Reader
import SchemaFilter.Toml.Record

/-!
# Reading configurations

A configuration is a TOML text in which references to variables are expanded first. It may have the
sections `schema`, `compile` and `debug`, and under `environments` the same sections again for each
environment. What a section of the configuration leaves out has a default; a section of an
environment sets nothing that it leaves out, and if it is written as an array it leaves out nothing.
-/

namespace SchemaFilter

open Toml (Item Table)

/-- The section `schema`. -/
def SchemaSection.ofItem? (complete : Bool) (item : Item) : Option SchemaSection := do
  let t ← item.record? ["path"] complete
  return { path := ← t.field? Item.string? "path" }

/-- The section `compile`. -/
def CompileSection.ofItem? (complete : Bool) (item : Item) : Option CompileSection := do
  let t ← item.record? ["error_mode"] complete
  return { errorMode := ← t.field? (Item.alternative? ErrorMode.ofName?) "error_mode" }

/-- The section `debug`. -/
def DebugSection.ofItem? (complete : Bool) (item : Item) : Option DebugSection := do
  let t ← item.record? ["log_level", "log_format"] complete
  return {
    logLevel := ← t.field? Item.string? "log_level"
    logFormat := ← t.field? (Item.alternative? LogFormat.ofName?) "log_format" }

/-- An environment. -/
def Environment.ofItem? (name : String) (item : Item) : Option Environment := do
  let t ← item.record? ["schema", "compile", "debug"] true
  return {
    name
    schema := ← t.field? (SchemaSection.ofItem? true) "schema"
    compile := ← t.field? (CompileSection.ofItem? true) "compile"
    debug := ← t.field? (DebugSection.ofItem? true) "debug" }

namespace Configuration

/-- The environments of a table, which go by their keys. -/
def environmentsOfItem? : Item → Option (NameTable Environment)
  | .table _ entries =>
    (entries.mapM fun (name, item) => Environment.ofItem? name item).map NameTable.empty.extend
  | _ => none

/-- The configuration that the content of a document gives. -/
def ofTable? (document : Table) : Option Configuration := do
  let t ← (Item.table .header document).record? ["schema", "compile", "debug", "environments"] false
  let schema ← t.field? (SchemaSection.ofItem? false) "schema"
  let compile ← t.field? (CompileSection.ofItem? false) "compile"
  let debug ← t.field? (DebugSection.ofItem? false) "debug"
  let environments ← t.field? environmentsOfItem? "environments"
  let c : Configuration := {}
  return {
    path := (schema.bind (·.path)).getD c.path
    errorMode := (compile.bind (·.errorMode)).getD c.errorMode
    logLevel := (debug.bind (·.logLevel)).getD c.logLevel
    logFormat := (debug.bind (·.logFormat)).getD c.logFormat
    environments := environments.getD c.environments }

/-- The configuration of a text. -/
def parse (vars : Variables) (text : String) : Except SchemaError Configuration :=
  match (Table.parse? (expand vars text)).bind ofTable? with
  | some c => .ok c
  | none => .error .malformedConfiguration

/-- The configuration in a file of the given bytes, which have to be UTF-8. -/
def parseBytes (vars : Variables) (path : String) (bytes : ByteArray) :
    Except SchemaError Configuration :=
  match String.fromUTF8? bytes with
  | none => .error (.unreadableFile path)
  | some text => parse vars text

end Configuration

end SchemaFilter
