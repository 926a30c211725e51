import SchemaFilter.Filter.Restriction
import SchemaFilter.Value.Text

/-!
# Predicates

A predicate is a tree: a leaf compares a field with a value, a group combines predicates by AND or
OR. `Predicate.combine` makes the groups that a filter compiles to, in which one member alone stands
for itself.
-/

namespace SchemaFilter

/-- A field as a leaf refers to it: its model, its own name, its column in storage, and the table
    or join from which the column is read. -/
structure FieldRef where
  model : String
  field : String
  column : String
  qualifier : String
  deriving DecidableEq, Repr, Inhabited

/-- A condition on the fields of a schema. -/
inductive Predicate where
  | leaf (field : FieldRef) (restriction : Restriction) (value : Value)
  | group (op : Combine) (members : List Predicate)
  deriving Inhabited

namespace Predicate

/-- The members combined; a single member stands for itself. -/
def combine (op : Combine) : List Predicate → Predicate
  | [p] => p
  | ps => .group op ps

def isLeaf : Predicate → Bool
  | leaf .. => true
  | group .. => false

mutual

/-- How many leaves there are. -/
def leafCount : Predicate → Nat
  | leaf .. => 1
  | group _ ps => leafCounts ps

def leafCounts : List Predicate → Nat
  | [] => 0
  | p :: ps => p.leafCount + leafCounts ps

end

mutual

/-- How many levels there are; a leaf is one. -/
def depth : Predicate → Nat
  | leaf .. => 1
  | group _ ps => 1 + maxDepth ps

def maxDepth : List Predicate → Nat
  | [] => 0
  | p :: ps => max p.depth (maxDepth ps)

end

mutual

/-- The predicate as it is shown to people. -/
def text : Predicate → String
  | leaf f r v => f.model ++ "." ++ f.field ++ " " ++ r.operator ++ " " ++ v.text
  | group op ps => "(" ++ (" " ++ op.name ++ " ").intercalate (texts ps) ++ ")"

def texts : List Predicate → List String
  | [] => []
  | p :: ps => p.text :: texts ps

end

mutual

/-- Equality of predicates, with values compared by `Value.sameAs`. -/
def sameAs : Predicate → Predicate → Bool
  | leaf f r v, leaf g s w => f == g && r == s && v.sameAs w
  | group o ps, group p qs => o == p && allSameAs ps qs
  | _, _ => false

def allSameAs : List Predicate → List Predicate → Bool
  | [], [] => true
  | p :: ps, q :: qs => p.sameAs q && allSameAs ps qs
  | _, _ => false

end

end Predicate

end SchemaFilter
