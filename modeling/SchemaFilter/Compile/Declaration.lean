import SchemaFilter.Compile.Error
import SchemaFilter.Filter.Rule

/-!
# Well-formed declarations

What has to hold of the rules of a filter whatever the schema is: fields, groups and hops have
names, and a relation rule has a hop and applies a parameter rule. The faults are looked for in the
order of declaration, and the first one counts.
-/

namespace SchemaFilter

variable {α : Type}

/-- The fault of a parameter rule, which is on the named hop or directly on the entity. -/
def ParameterRule.fault? (hop : Option String) (r : ParameterRule α) : Option RuleFault :=
  if r.field.isEmpty then some (.emptyField hop)
  else if r.group.isEmpty then some (.emptyGroup r.field hop)
  else none

/-- The first fault of a hop of the relation rule with the given index. -/
def RelationHop.fault? (relation : Nat) (h : RelationHop α) : Option RuleFault :=
  if h.name.isEmpty then some (.unnamedHop relation)
  else h.parameters.findSome? (ParameterRule.fault? (some h.name))

/-- The first fault of the relation rule with the given index. -/
def RelationRule.fault? (index : Nat) (r : RelationRule α) : Option RuleFault :=
  if r.hops.isEmpty then some (.noHop index)
  else if r.parameterCount = 0 then some (.noParameter index)
  else r.hops.findSome? (RelationHop.fault? index)

/-- The first fault of relation rules, the first of which has the given index. -/
def relationFault? : (index : Nat) → List (RelationRule α) → Option RuleFault
  | _, [] => none
  | index, r :: rs => (r.fault? index).or (relationFault? (index + 1) rs)

/-- The first fault of a filter: parameter rules come before relation rules. -/
def Filter.fault? (f : Filter α) : Option RuleFault :=
  (f.parameters.findSome? (ParameterRule.fault? none)).or (relationFault? 0 f.relations)

end SchemaFilter
