import SchemaFilter.Diagnostic
import SchemaFilter.Filter.Restriction
import SchemaFilter.Schema.Lookup
import SchemaFilter.Value.Basic

/-!
# Errors of compilation

Every error names the rule, field, relation or model it is about and holds its cause; the wording is
in `CompileError.message`. A case `described` stands for what a caller says in words of its own.

`CompileError.collect` gathers the errors of one compilation: one error alone stands for itself.
-/

namespace SchemaFilter

/-- Why an entity or a root cannot be compiled against. -/
inductive TargetFault where
  | notDeclared
  /-- The supplied root is one of another model. -/
  | otherRoot (root entity : String)
  | described (message : String)
  deriving DecidableEq, Repr

/-- Why a field or relation does not match the schema. -/
inductive StructuralFault where
  | notFound (error : LookupError)
  /-- A parameter rule on a relation. -/
  | isRelation
  /-- A hop over a field that is none. -/
  | notRelation (type : FieldType)
  /-- A hop of the wrong cardinality. -/
  | cardinality (declared actual : Cardinality)
  | noTarget
  /-- A leaf on a relation. -/
  | relationCompared
  | described (message : String)
  deriving DecidableEq, Repr

/-- The type or value that a rule needs. -/
inductive Expectation where
  | type (type : ValueType)
  | singleValued (restriction : Restriction)
  | orderable (restriction : Restriction)
  | scalarValue (scalar : ScalarType)
  | orderedValue (scalar : ScalarType)
  | listOf (scalar : ScalarType)
  | described (text : String)
  deriving DecidableEq, Repr

/-- The type or value that is there instead. -/
inductive Finding where
  | type (type : ValueType)
  | scalar (scalar : ScalarType)
  | value (kind : Value.Kind)
  | described (text : String)
  deriving DecidableEq, Repr

/-- What is wrong with the declaration of a rule. -/
inductive RuleFault where
  /-- A parameter rule without a field, maybe on a hop. -/
  | emptyField (hop : Option String)
  | emptyGroup (field : String) (hop : Option String)
  | noHop (relation : Nat)
  | noParameter (relation : Nat)
  | unnamedHop (relation : Nat)
  | described (message : String)
  deriving DecidableEq, Repr

/-- Why a filter is refused. -/
inductive CompileError where
  | invalidTarget (entity : String) (fault : TargetFault)
  | structuralMismatch (model field : String) (fault : StructuralFault)
  | typeMismatch (model field : String) (expected : Expectation) (found : Finding)
  | unsupportedRestriction (text : String)
  /-- There is no rule. -/
  | emptyCompilation (entity : String)
  /-- The rules of a group declare different operators. -/
  | configurationConflict (group : String) (first second : Combine)
  | malformedRule (entity : String) (fault : RuleFault)
  /-- Several errors, with their number. -/
  | aggregate (count : Nat) (errors : List CompileError)
  deriving Repr

/-! ## Wording -/

def TargetFault.message : TargetFault → String
  | notDeclared => "not a searchable model in this schema"
  | otherRoot root entity => s!"query root is `{root}`, filter targets `{entity}`"
  | described message => message

def StructuralFault.message : StructuralFault → String
  | notFound error => error.message
  | isRelation => "is a relation; reach its fields through a relation rule"
  | notRelation type => s!"is a {type.name} field, not a relation"
  | cardinality declared actual =>
    let stated := if declared.isCollection then "iterable" else "non-iterable"
    s!"hop declared {stated} but the schema reports a {actual.text} relation"
  | noTarget => "relation has no target model"
  | relationCompared => "relation fields cannot be compared directly"
  | described message => message

def Expectation.text : Expectation → String
  | type t => t.text
  | singleValued r => s!"single-valued field for {r.name}"
  | orderable r => s!"orderable type for {r.name}"
  | scalarValue s => s.name
  | orderedValue s => s!"ordered {s.name} value"
  | listOf s => s!"list of {s.name}"
  | described text => text

def Finding.text : Finding → String
  | type t => t.text
  | scalar s => s.name
  | value k => k.name
  | described text => text

/-- The words that name the hop a rule is on. -/
def hopText : Option String → String
  | some hop => s!" on hop `{hop}`"
  | none => ""

def RuleFault.message : RuleFault → String
  | emptyField hop => s!"parameter rule{hopText hop} has an empty field name"
  | emptyGroup field hop => s!"parameter rule `{field}`{hopText hop} has an empty group id"
  | noHop i => s!"relation rule #{i} has no hops"
  | noParameter i => s!"relation rule #{i} applies no parameter rule"
  | unnamedHop i => s!"relation rule #{i} has a hop without a name"
  | described message => message

namespace CompileError

/-- The error in words. -/
def message : CompileError → String
  | invalidTarget entity fault => s!"invalid target `{entity}`: " ++ fault.message
  | structuralMismatch model field fault =>
    s!"structural mismatch at `{model}.{field}`: " ++ fault.message
  | typeMismatch model field expected found =>
    s!"type mismatch at `{model}.{field}`: expected {expected.text}, found {found.text}"
  | unsupportedRestriction text => s!"unsupported restriction `{text}`"
  | emptyCompilation entity => s!"no predicates generated for `{entity}`"
  | configurationConflict group first second =>
    s!"group `{group}` combines with both {first.name} and {second.name}"
  | malformedRule entity fault => s!"malformed rule on `{entity}`: " ++ fault.message
  | aggregate count _ => s!"filter compilation failed with {count} error(s)"

/-- A few words for the kind of error. -/
def description : CompileError → String
  | invalidTarget .. => "Invalid filter target"
  | structuralMismatch .. => "Structural mismatch"
  | typeMismatch .. => "Type mismatch"
  | unsupportedRestriction .. => "Unsupported restriction"
  | emptyCompilation .. => "No predicates generated"
  | configurationConflict .. => "Conflicting group configuration"
  | malformedRule .. => "Malformed rule"
  | aggregate .. => "Multiple errors"

/-- The stable code of the kind of error. -/
def code : CompileError → String
  | invalidTarget .. => "criters::compile::invalid_target"
  | structuralMismatch .. => "criters::compile::structural_mismatch"
  | typeMismatch .. => "criters::compile::type_mismatch"
  | unsupportedRestriction .. => "criters::compile::unsupported_restriction"
  | emptyCompilation .. => "criters::compile::empty_compilation"
  | configurationConflict .. => "criters::compile::configuration_conflict"
  | malformedRule .. => "criters::compile::malformed_rule"
  | aggregate .. => "criters::compile::aggregate"

/-- The errors that this one gathers. -/
def inner : CompileError → List CompileError
  | aggregate _ errors => errors
  | _ => []

/-- The error as it is reported. -/
def diagnostic (e : CompileError) : Diagnostic :=
  match e with
  | unsupportedRestriction _ =>
    { code := e.code
      help := some ("use one of " ++ ", ".intercalate (Restriction.all.map Restriction.name)) }
  | emptyCompilation _ =>
    { code := e.code, help := some "declare at least one parameter or relation rule" }
  | aggregate _ errors => { code := e.code, related := some (errors.map message) }
  | _ => { code := e.code }

/-- The errors of a compilation as one, if there are any. -/
def collect : List CompileError → Option CompileError
  | [] => none
  | [e] => some e
  | es => some (aggregate es.length es)

end CompileError

/-- The restriction that a text names, or an error with the text as it is. -/
def Restriction.parse (text : String) : Except CompileError Restriction :=
  match Restriction.ofText? text with
  | some r => .ok r
  | none => .error (.unsupportedRestriction text)

end SchemaFilter
