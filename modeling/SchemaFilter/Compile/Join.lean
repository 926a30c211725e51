import SchemaFilter.Compile.Typing

/-!
# Joins

A relation rule walks from the root over its hops, each from the model that the one before leads to,
and every hop makes a join. Joins belong to the rule that makes them: two rules that walk the same
relation join it twice, under different aliases.
-/

namespace SchemaFilter

/-- A join, named by the relations walked from the root. -/
structure Join where
  /-- The place of its rule among the relation rules, counted from one. -/
  rule : Nat
  relations : List String
  /-- The model that the last relation leads to. -/
  target : String
  /-- The cardinality of the last relation. -/
  cardinality : Cardinality
  deriving DecidableEq, Repr, Inhabited

namespace Join

/-- The alias of the joined table: `r`, the number of the rule, and the relations, each after two
    underscores. -/
def aliasName (j : Join) : String :=
  "r" ++ toString j.rule ++ String.join (j.relations.map ("__" ++ ·))

/-- How many relations are walked. -/
def depth (j : Join) : Nat := j.relations.length

/-- The relations with points between them. -/
def path (j : Join) : String := ".".intercalate j.relations

end Join

variable {α : Type}

/-- Walks hops from a model that was reached over the given relations; one join per hop, or the
    mismatch of the first hop that cannot be walked. -/
def walk (s : Schema) (rule : Nat) :
    (model : String) → (walked : List String) → List (RelationHop α) →
      Except CompileError (List Join)
  | _, _, [] => .ok []
  | model, walked, hop :: hops =>
    match hop.check s model with
    | .error e => .error e
    | .ok field =>
      match field.target? with
      | none => .error (.structuralMismatch model hop.name .noTarget)
      | some target =>
        let walked := walked ++ [field.field]
        (walk s rule target walked hops).map (⟨rule, walked, target, field.cardinality⟩ :: ·)

/-- The joins of a relation rule from a root model. -/
def RelationRule.joins (s : Schema) (rule : Nat) (root : String) (r : RelationRule α) :
    Except CompileError (List Join) :=
  walk s rule root [] r.hops

/-- The model that the last of some joins leads to. -/
def terminal? (joins : List Join) : Option String := joins.getLast?.map (·.target)

end SchemaFilter
