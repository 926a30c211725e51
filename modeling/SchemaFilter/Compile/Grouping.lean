import SchemaFilter.Compile.Error
import SchemaFilter.NameTable
import SchemaFilter.Predicate.Basic

/-!
# Groups

Leaves are gathered in groups, in the order in which the groups are first seen. The first leaf of
a group fixes its operator. In the end every group is one predicate, and all of them have to hold.
-/

namespace SchemaFilter

/-- The predicates gathered under one group id. -/
structure Group where
  id : String
  op : Combine
  members : List Predicate
  deriving Inhabited

instance : Named Group := ⟨Group.id⟩

/-- The group as one predicate. -/
def Group.predicate (g : Group) : Predicate := .combine g.op g.members

/-- The groups of one compilation. -/
structure Grouping where
  groups : NameTable Group
  deriving Inhabited

namespace Grouping

def empty : Grouping := ⟨.empty⟩

/-- Adds a predicate to a group, whose operator has to be the given one: the answer, and the groups
    after it. -/
def push (g : Grouping) (id : String) (op : Combine) (p : Predicate) :
    Except CompileError Unit × Grouping :=
  match g.groups.find? id with
  | none => (.ok (), ⟨g.groups.insert ⟨id, op, [p]⟩⟩)
  | some group =>
    if group.op = op then
      (.ok (), ⟨g.groups.insert { group with members := group.members ++ [p] }⟩)
    else (.error (.configurationConflict id group.op op), g)

/-- How many groups there are. -/
def size (g : Grouping) : Nat := g.groups.size

/-- All groups as one predicate. -/
def finish (g : Grouping) (entity : String) : Except CompileError Predicate :=
  if g.groups.isEmpty then .error (.emptyCompilation entity)
  else .ok (.combine .and (g.groups.items.map Group.predicate))

end Grouping

end SchemaFilter
