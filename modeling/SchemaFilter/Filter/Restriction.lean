import SchemaFilter.Text.Blank

/-!
# Restrictions

The comparisons between a field and a value, and the two ways in which the members of a group
combine. A restriction is read from its name, in any mix of ASCII cases, or from its operator.
-/

namespace SchemaFilter

/-- How a field is compared with a value. -/
inductive Restriction where
  | equals | notEquals | greaterThan | greaterThanOrEquals | lessThan | lessThanOrEquals
  | isIn | notIn
  deriving DecidableEq, Repr, Inhabited

namespace Restriction

/-- All restrictions in their listing order. -/
def all : List Restriction :=
  [equals, notEquals, greaterThan, greaterThanOrEquals, lessThan, lessThanOrEquals, isIn, notIn]

/-- The canonical name. -/
def name : Restriction → String
  | equals => "EQUALS"
  | notEquals => "NOT_EQUALS"
  | greaterThan => "GREATER_THAN"
  | greaterThanOrEquals => "GREATER_THAN_OR_EQUALS"
  | lessThan => "LESS_THAN"
  | lessThanOrEquals => "LESS_THAN_OR_EQUALS"
  | isIn => "IN"
  | notIn => "NOT_IN"

/-- The operator in SQL. -/
def operator : Restriction → String
  | equals => "="
  | notEquals => "!="
  | greaterThan => ">"
  | greaterThanOrEquals => ">="
  | lessThan => "<"
  | lessThanOrEquals => "<="
  | isIn => "IN"
  | notIn => "NOT IN"

/-- Whether the comparison is by order. -/
def isOrdering : Restriction → Bool
  | greaterThan | greaterThanOrEquals | lessThan | lessThanOrEquals => true
  | _ => false

/-- Whether the comparison is with the elements of a list. -/
def isMembership : Restriction → Bool
  | isIn | notIn => true
  | _ => false

/-- Whether a text names the restriction: by its name in any case, or by an operator that is a
    symbol. -/
def isNamedBy (r : Restriction) (text : String) : Bool :=
  r.name.toLower == text.toLower || (!r.isMembership && r.operator == text)

/-- The restriction that a text names, with blanks around it ignored. -/
def ofText? (text : String) : Option Restriction :=
  all.find? (·.isNamedBy (String.ofList (trimBlank text.toList)))

/-- The restriction of exactly the given canonical name. -/
def ofName? (name : String) : Option Restriction := all.find? (·.name == name)

end Restriction

/-- How the members of a group combine. -/
inductive Combine where
  /-- All members have to hold. -/
  | and
  /-- Some member has to hold. -/
  | or
  deriving DecidableEq, Repr, Inhabited

namespace Combine

def name : Combine → String
  | and => "AND"
  | or => "OR"

def ofName? : String → Option Combine
  | "AND" => some and
  | "OR" => some or
  | _ => none

end Combine

end SchemaFilter
