import SchemaFilter.Diagnostic
import SchemaFilter.Schema.Types

/-!
# Errors about schemas and settings

Each error is a cause; its wording is in `SchemaError.message`. Several causes have a case
`described` for errors that a caller raises in words of its own.
-/

namespace SchemaFilter

/-- Why a schema text cannot be read. -/
inductive SyntaxFault where
  /-- The text leaves the grammar. -/
  | unexpected
  /-- An integer literal has no 64-bit value. -/
  | integerOutOfRange
  | described (message : String)
  deriving DecidableEq, Repr

/-- What is wrong with a model. -/
inductive ModelFault where
  | noField
  /-- More than one field is marked `@id`. -/
  | severalIds (fields : List String)
  | described (message : String)
  deriving DecidableEq, Repr

/-- What is wrong with an attribute. -/
inductive AttributeFault where
  /-- `@id` on a relation field. -/
  | idOnRelation (model field : String)
  /-- `@map` on a field without exactly one string. -/
  | fieldMapArgument (model field : String)
  /-- `@@map` on a model without exactly one string. -/
  | modelMapArgument (model : String)
  | described (message : String)
  deriving DecidableEq, Repr

/-- What kind of thing is declared twice. -/
inductive DeclarationKind where
  | model | field
  | described (kind : String)
  deriving DecidableEq, Repr

/-- What is wrong with a setting. -/
inductive SettingFault where
  | unknownLogFormat (text : String)
  | described (message : String)
  deriving DecidableEq, Repr

/-- Why a schema or a configuration is refused. -/
inductive SchemaError where
  | unreadableFile (path : String)
  /-- The schema text is wrong at the given bytes. -/
  | malformedText (fault : SyntaxFault) (offset length : Nat)
  | invalidModel (model : String) (fault : ModelFault)
  | invalidField (model field message : String)
  | duplicate (kind : DeclarationKind) (name : String)
  /-- A relation field names a model that is not declared. -/
  | unknownType (model field type : String)
  | invalidAttribute (name : String) (fault : AttributeFault)
  | invalidSetting (fault : SettingFault)
  /-- The configuration text is not TOML, or not of the expected shape. -/
  | malformedConfiguration
  /-- All errors that validation found, with their number. -/
  | validationFailed (count : Nat) (errors : List SchemaError)
  deriving Repr

def SyntaxFault.message : SyntaxFault → String
  | unexpected => "unexpected input"
  | integerOutOfRange => "integer out of range"
  | described message => message

def ModelFault.message : ModelFault → String
  | noField => "model must declare at least one field"
  | severalIds fields => "multiple @id fields: " ++ ", ".intercalate fields
  | described message => message

def AttributeFault.message : AttributeFault → String
  | idOnRelation model field => s!"@id cannot be applied to relation field '{model}.{field}'"
  | fieldMapArgument model field =>
    s!"@map on field '{model}.{field}' expects exactly one string argument"
  | modelMapArgument model => s!"@@map on model '{model}' expects exactly one string argument"
  | described message => message

def DeclarationKind.text : DeclarationKind → String
  | model => "model"
  | field => "field"
  | described kind => kind

def SettingFault.message : SettingFault → String
  | unknownLogFormat text => s!"unknown log format '{text}'"
  | described message => message

namespace SchemaError

/-- The error in words. -/
def message : SchemaError → String
  | unreadableFile path => s!"failed to read file: {path}"
  | malformedText fault _ _ => "syntax error in schema: " ++ fault.message
  | invalidModel model fault => s!"invalid model `{model}`: " ++ fault.message
  | invalidField model field message => s!"invalid field `{model}.{field}`: {message}"
  | duplicate kind name => s!"duplicate {kind.text} `{name}`"
  | unknownType model field type => s!"unknown type `{type}` in `{model}.{field}`"
  | invalidAttribute name fault => s!"invalid attribute `@{name}`: " ++ fault.message
  | invalidSetting fault => "configuration error: " ++ fault.message
  | malformedConfiguration => "failed to parse TOML"
  | validationFailed count _ => s!"schema validation failed with {count} error(s)"

/-- The stable code of the kind of error. -/
def code : SchemaError → String
  | unreadableFile .. => "criters::schema::io_error"
  | malformedText .. => "criters::schema::syntax_error"
  | invalidModel .. => "criters::schema::invalid_model"
  | invalidField .. => "criters::schema::invalid_field"
  | duplicate .. => "criters::schema::duplicate"
  | unknownType .. => "criters::schema::unknown_type"
  | invalidAttribute .. => "criters::schema::invalid_attribute"
  | invalidSetting .. => "criters::schema::config_error"
  | malformedConfiguration => "criters::schema::toml_error"
  | validationFailed .. => "criters::schema::validation_failed"

/-- The errors that this one gathers. -/
def inner : SchemaError → List SchemaError
  | validationFailed _ errors => errors
  | _ => []

/-- The error as it is reported. -/
def diagnostic (e : SchemaError) : Diagnostic :=
  match e with
  | malformedText _ offset length =>
    { code := e.code, labels := some [⟨"error here", offset, length⟩] }
  | unknownType .. =>
    { code := e.code
      help := some "relation fields must name a model declared in the same schema" }
  | validationFailed _ errors => { code := e.code, related := some (errors.map message) }
  | _ => { code := e.code }

/-- The errors of a validation as one. -/
def gather (errors : List SchemaError) : SchemaError := validationFailed errors.length errors

end SchemaError

end SchemaFilter
