import SchemaFilter.Compile.Declaration
import SchemaFilter.Compile.Grouping
import SchemaFilter.Compile.Join
import SchemaFilter.Compile.Leaf
import SchemaFilter.ErrorMode

/-!
# Compilation

A filter is compiled against a schema into one predicate and the joins it needs. Its rules are laid
out as a list of steps in the order of declaration, and a step checks its rule, reads the value,
builds the leaf and adds it to its group. The error mode decides what a failing step does: it ends
the run, or it is noted and the run goes on without it.

Main definitions:

* `Filter.plan`: the steps and joins of a filter;
* `Action`, `Step.run`: what a step does to the progress of a compilation, also if it fails;
* `runSteps`: the run over the steps, with the progress and the errors;
* `Compiler.compile`: the outcome for a filter and its input.
-/

namespace SchemaFilter

/-! ## Roots, places and outcomes -/

/-- The model and the table that a query starts from. -/
structure Root where
  model : String
  table : String
  deriving DecidableEq, Repr, Inhabited

/-- Where a parameter rule stands in its filter, all counts from zero. -/
inductive Place where
  | direct (parameter : Nat)
  | onHop (relation hop parameter : Nat)
  deriving DecidableEq, Repr

/-- A compiled filter. -/
structure Criteria where
  root : Root
  /-- One chain of joins per relation rule, in order. -/
  joins : List Join
  predicate : Predicate
  deriving Inhabited

/-- What a compilation did: the rules whose values it read, in order, and its result. -/
structure Outcome where
  reads : List Place
  result : Except CompileError Criteria

/-- A schema with the settings of compilations. -/
structure Compiler where
  schema : Schema
  mode : ErrorMode := .failFast
  /-- The root to use in place of the one that the schema gives. -/
  root? : Option Root := none

variable {α : Type}

/-! ## Actions -/

/-- How far a compilation is: the rules whose values it read, in order, and the groups. -/
structure Progress where
  reads : List Place := []
  groups : Grouping := .empty
  deriving Inhabited

/-- What a compilation does on its way. A failure does not undo what was done before it. -/
abbrev Action := ExceptT CompileError (StateM Progress)

/-- The answer of an action, and the progress after it. -/
def Action.runFrom {β : Type} (x : Action β) (p : Progress) : Except CompileError β × Progress :=
  (x.run.run p).run

/-- Reads the value of the rule that stands at a place. -/
def ParameterRule.value (r : ParameterRule α) (place : Place) (input : α) : Action Value := do
  modify fun p => { p with reads := p.reads ++ [place] }
  return r.read input

/-- Adds a leaf to a group. -/
def pushLeaf (id : String) (op : Combine) (leaf : Predicate) : Action Unit := do
  let (answer, groups) := (← get).groups.push id op leaf
  modify ({ · with groups })
  answer

/-! ## Steps -/

/-- One thing to do for a filter. -/
inductive Step (α : Type) where
  /-- Apply a parameter rule to a model, read from the given table or join. -/
  | apply (place : Place) (model qualifier : String) (rule : ParameterRule α)
  /-- Report a relation rule that cannot be walked. -/
  | fail (error : CompileError)

/-- The steps that apply rules to a model. The place of a rule is given by its index. -/
def ruleSteps (place : Nat → Place) (model qualifier : String) (rules : List (ParameterRule α)) :
    List (Step α) :=
  rules.mapIdx fun i r => .apply (place i) model qualifier r

/-- The steps of hops that made the given joins, from the hop with the given index on. -/
def hopSteps (relation : Nat) : (hop : Nat) → List (RelationHop α) → List Join → List (Step α)
  | hop, h :: hs, j :: js =>
    ruleSteps (.onHop relation hop) j.target j.aliasName h.parameters ++
      hopSteps relation (hop + 1) hs js
  | _, _, _ => []

/-- The joins and steps of relation rules from a root, the first with the given index. -/
def relationSteps (s : Schema) (root : Root) :
    (index : Nat) → List (RelationRule α) → List Join × List (Step α)
  | _, [] => ([], [])
  | index, r :: rs =>
    let (joins, steps) := relationSteps s root (index + 1) rs
    match r.joins s (index + 1) root.model with
    | .error e => (joins, .fail e :: steps)
    | .ok js => (js ++ joins, hopSteps index 0 r.hops js ++ steps)

/-- The joins and steps of a filter. -/
def Filter.plan (f : Filter α) (s : Schema) (root : Root) : List Join × List (Step α) :=
  let (joins, steps) := relationSteps s root 0 f.relations
  (joins, ruleSteps .direct root.model root.table f.parameters ++ steps)

/-- Does a step. A value is read only after its rule has been checked. -/
def Step.run (s : Schema) (input : α) : Step α → Action Unit
  | .fail e => throw e
  | .apply place model qualifier rule => do
    let field ← rule.check s model
    let value ← rule.value place input
    let leaf ← field.leaf qualifier rule.restriction value
    pushLeaf rule.group rule.combine leaf

/-! ## Runs -/

/-- What a run over steps came to, and the errors of its steps. -/
structure Run extends Progress where
  errors : List CompileError

/-- Runs steps one after the other. -/
def runSteps (mode : ErrorMode) (s : Schema) (input : α) : Progress → List (Step α) → Run
  | p, [] => ⟨p, []⟩
  | p, step :: steps =>
    match (step.run s input).runFrom p with
    | (.ok (), q) => runSteps mode s input q steps
    | (.error e, q) =>
      match mode with
      | .failFast => ⟨q, [e]⟩
      | .aggregate =>
        let r := runSteps mode s input q steps
        { r with errors := e :: r.errors }

namespace Compiler

/-- The root that the schema gives for an entity. -/
def deriveRoot (c : Compiler) (entity : String) : Except CompileError Root :=
  match c.schema.table? entity with
  | some table => .ok ⟨entity, table⟩
  | none => .error (.invalidTarget entity .notDeclared)

/-- The root of a compilation: the supplied one, if it is of the right model. -/
def rootFor (c : Compiler) (entity : String) : Except CompileError Root :=
  match c.deriveRoot entity with
  | .error e => .error e
  | .ok derived =>
    match c.root? with
    | none => .ok derived
    | some root =>
      if root.model = entity then .ok root
      else .error (.invalidTarget entity (.otherRoot root.model entity))

/-- Compiles a filter with the values of an input. -/
def compile (c : Compiler) (f : Filter α) (input : α) : Outcome :=
  match f.fault? with
  | some fault => ⟨[], .error (.malformedRule f.entity fault)⟩
  | none =>
    match c.rootFor f.entity with
    | .error e => ⟨[], .error e⟩
    | .ok root =>
      let (joins, steps) := f.plan c.schema root
      let run := runSteps c.mode c.schema input {} steps
      ⟨run.reads,
        match CompileError.collect run.errors with
        | some e => .error e
        | none => (run.groups.finish f.entity).map fun p => ⟨root, joins, p⟩⟩

end Compiler

end SchemaFilter
