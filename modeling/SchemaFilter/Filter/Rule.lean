import SchemaFilter.Filter.Restriction
import SchemaFilter.Text.Quoted
import SchemaFilter.Value.Basic

/-!
# Filters

A filter restricts one model, its *entity*, by rules. A parameter rule compares a field with a value
that it reads off a record `α`, the filter's input; a relation rule walks from relation to relation
and applies parameter rules to the models on its way. Rules of one group are combined by the group's
operator.
-/

namespace SchemaFilter

/-- The group of the rules that name none. -/
def defaultGroup : String := "ungrouped"

/-- The restriction of a field by a value that is read off the input. -/
structure ParameterRule (α : Type) where
  field : String
  restriction : Restriction
  group : String := defaultGroup
  combine : Combine := .and
  /-- The declared type of the value. -/
  valueType : ValueType
  read : α → Value

/-- One step over a relation, with the rules for the model it leads to. -/
structure RelationHop (α : Type) where
  name : String
  cardinality : Cardinality
  parameters : List (ParameterRule α)

/-- A chain of steps over relations. -/
structure RelationRule (α : Type) where
  hops : List (RelationHop α)

/-- How many parameter rules the hops have. -/
def RelationRule.parameterCount {α : Type} (r : RelationRule α) : Nat :=
  (r.hops.flatMap (·.parameters)).length

/-- The rules that restrict an entity. -/
structure Filter (α : Type) where
  entity : String
  parameters : List (ParameterRule α)
  relations : List (RelationRule α)

/-- Whether there is no rule at all. -/
def Filter.isEmpty {α : Type} (f : Filter α) : Bool := f.parameters.isEmpty && f.relations.isEmpty

/-! ## Listing rules -/

/-- The parts of a listing between brackets. -/
def bracketed (parts : List String) : String := "[" ++ ", ".intercalate parts ++ "]"

/-- The name of a restriction in listings of rules. -/
def Restriction.listing : Restriction → String
  | equals => "Equals"
  | notEquals => "NotEquals"
  | greaterThan => "GreaterThan"
  | greaterThanOrEquals => "GreaterThanOrEquals"
  | lessThan => "LessThan"
  | lessThanOrEquals => "LessThanOrEquals"
  | isIn => "In"
  | notIn => "NotIn"

def Combine.listing : Combine → String
  | and => "And"
  | or => "Or"

def Cardinality.listing : Cardinality → String
  | single => "Single"
  | collection => "Collection"

def ValueType.listing (t : ValueType) : String :=
  let isCollection := if t.cardinality.isCollection then "true" else "false"
  s!"ValueType \x7b scalar: {t.scalar.name}, collection: {isCollection} \x7d"

/-- A rule in one line, without the function that reads its value. -/
def ParameterRule.listing {α : Type} (r : ParameterRule α) : String :=
  "ParameterRule \x7b field: " ++ quoteText r.field ++ ", restriction: " ++ r.restriction.listing ++
    ", group: " ++ quoteText r.group ++ ", combine: " ++ r.combine.listing ++ ", value_type: " ++
    r.valueType.listing ++ ", .. \x7d"

def RelationHop.listing {α : Type} (h : RelationHop α) : String :=
  "RelationHop \x7b name: " ++ quoteText h.name ++ ", cardinality: " ++ h.cardinality.listing ++
    ", parameters: " ++ bracketed (h.parameters.map ParameterRule.listing) ++ " \x7d"

def RelationRule.listing {α : Type} (r : RelationRule α) : String :=
  "RelationRule \x7b hops: " ++ bracketed (r.hops.map RelationHop.listing) ++ " \x7d"

end SchemaFilter
