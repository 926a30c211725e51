import SchemaFilter.Proofs.Compile.Acceptance
import SchemaFilter.Proofs.Compile.Joins
import SchemaFilter.Proofs.Schema.Merging

/-!
# The part of a schema that a compilation looks at

A compilation asks a schema about the entity of its filter and about the models that relations lead
to from there, and about no other. Two schemas that have the same answers to these questions give
the same outcome, down to the errors and the values that are read. A name that relations lead to is
one of the questions also if no model has it.

Results:

* `walk_congr`, `Filter.plan_congr`: a filter has the same joins and steps in both schemas;
* `runSteps_congr`: the same steps make the same run;
* `Compiler.compile_congr`: the outcomes are the same;
* `compile_merge_eq`: a merge with models that are not reached changes no outcome.
-/

namespace SchemaFilter

variable {α : Type}

/-! ## Reached models -/

/-- Relations lead from one model name to another, over any number of relations. -/
inductive Schema.Reaches (s : Schema) : String → String → Prop where
  | refl (model : String) : Reaches s model model
  | step {model name next target : String} {f : Field} (hf : s.field? model name = some f)
      (htype : f.type = .relation next) (others : Reaches s next target) : Reaches s model target

/-- A set that relations do not leave holds all that is reached from it. -/
theorem Schema.Reaches.of_closed {s : Schema} {P : String → Prop}
    (hP : ∀ m ∈ s.models.items, P m.name → ∀ f ∈ m.fields.items, ∀ next,
      f.type.target? = some next → P next) {model target : String} (h : s.Reaches model target)
    (hmodel : P model) : P target := by
  induction h with
  | refl model => exact hmodel
  | @step model name next target f hf htype others ih =>
    obtain ⟨m, hm, hfield⟩ := Option.bind_eq_some_iff.mp hf
    obtain ⟨hmem, hname⟩ := NameTable.find?_eq_some_iff.mp hm
    have hf : f ∈ m.fields.items := (NameTable.find?_eq_some_iff.mp hfield).1
    have hname : m.name = model := hname
    rw [← hname] at hmodel
    exact ih (hP m hmem hmodel f hf next (by rw [htype, FieldType.target?]))

theorem Walks.reaches {s : Schema} {model : String} {hops : List (RelationHop α)}
    {targets : List String} (h : Walks s model hops targets) :
    ∀ target ∈ targets, s.Reaches model target := by
  induction h with
  | nil model => exact List.forall_mem_nil _
  | cons head tail ih =>
    obtain ⟨f, hf, htype, -⟩ := RelationHop.target?_eq_some_iff.mp head
    refine List.forall_mem_cons.mpr ⟨.step hf htype (.refl _), fun target htarget => ?_⟩
    exact .step hf htype (ih target htarget)

/-- Under every name that relations of the first schema lead to from a model, both schemas declare
    the same, a model or nothing. -/
def Schema.AgreesFrom (s t : Schema) (model : String) : Prop :=
  ∀ name, s.Reaches model name → t.model? name = s.model? name

theorem Schema.AgreesFrom.of_target? {s t : Schema} {model target : String} {hop : RelationHop α}
    (h : s.AgreesFrom t model) (ht : hop.target? s model = some target) :
    s.AgreesFrom t target := by
  obtain ⟨f, hf, htype, -⟩ := RelationHop.target?_eq_some_iff.mp ht
  exact fun name hname => h name (.step hf htype hname)

/-! ## Questions about one model -/

section

variable {s t : Schema} {model : String}

theorem Schema.resolve_congr (h : t.model? model = s.model? model) (field : String) :
    t.resolve model field = s.resolve model field := by
  rw [resolve, resolve, h]

theorem ParameterRule.check_congr (h : t.model? model = s.model? model) (r : ParameterRule α) :
    r.check t model = r.check s model := by
  rw [check, check, Schema.resolve_congr h]

theorem RelationHop.check_congr (h : t.model? model = s.model? model) (hop : RelationHop α) :
    hop.check t model = hop.check s model := by
  rw [check, check, Schema.resolve_congr h]

/-- A hop that passes its check leads to the target of the field that is found. -/
theorem RelationHop.target?_of_check {hop : RelationHop α} {field : FieldInfo}
    (h : hop.check s model = .ok field) : hop.target? s model = field.target? := by
  cases ht : hop.target? s model with
  | none =>
    obtain ⟨e, he⟩ := check_of_target?_eq_none ht
    cases h.symm.trans he
  | some target =>
    obtain ⟨field', hcheck, htarget, -⟩ := check_of_target?_eq_some ht
    cases h.symm.trans hcheck
    exact htarget.symm

/-! ## Plans -/

theorem walk_congr (h : s.AgreesFrom t model) (rule : Nat) (walked : List String)
    (hops : List (RelationHop α)) :
    walk t rule model walked hops = walk s rule model walked hops := by
  induction hops generalizing model walked with
  | nil => rfl
  | cons hop hops ih =>
    rw [walk, walk, hop.check_congr (h model (.refl model))]
    cases hcheck : hop.check s model with
    | error e => rfl
    | ok field =>
      cases htarget : field.target? with
      | none => simp only [htarget]
      | some target =>
        have ht : hop.target? s model = some target :=
          (RelationHop.target?_of_check hcheck).trans htarget
        simp only [htarget, ih (h.of_target? ht)]

variable {root : Root}

theorem relationSteps_congr (h : s.AgreesFrom t root.model) (index : Nat)
    (rules : List (RelationRule α)) :
    relationSteps t root index rules = relationSteps s root index rules := by
  induction rules generalizing index with
  | nil => rfl
  | cons r rules ih =>
    rw [relationSteps, relationSteps, ih, RelationRule.joins, RelationRule.joins, walk_congr h]

/-- A filter has the same joins and steps in both schemas. -/
theorem Filter.plan_congr (h : s.AgreesFrom t root.model) (f : Filter α) :
    f.plan t root = f.plan s root := by
  rw [plan, plan, relationSteps_congr h]

/-! ## Steps -/

/-- If the step applies a rule, it applies it to a model of some kind. -/
def Step.On (P : String → Prop) : Step α → Prop
  | .fail _ => True
  | .apply _ model _ _ => P model

variable {P : String → Prop}

theorem on_ruleSteps (h : P model) (place : Nat → Place) (qualifier : String)
    (rules : List (ParameterRule α)) :
    ∀ step ∈ ruleSteps place model qualifier rules, step.On P := by
  intro step hstep
  obtain ⟨i, hi, rfl⟩ := List.mem_mapIdx.mp hstep
  exact h

theorem on_hopSteps {joins : List Join} (h : ∀ join ∈ joins, P join.target) (relation hop : Nat)
    (hops : List (RelationHop α)) :
    ∀ step ∈ hopSteps relation hop hops joins, step.On P := by
  induction hops generalizing hop joins with
  | nil => cases joins <;> exact List.forall_mem_nil _
  | cons first hops ih =>
    cases joins with
    | nil => exact List.forall_mem_nil _
    | cons join joins =>
      obtain ⟨hjoin, hjoins⟩ := List.forall_mem_cons.mp h
      rw [hopSteps, List.forall_mem_append]
      exact ⟨on_ruleSteps hjoin _ _ _, ih hjoins (hop + 1)⟩

theorem RelationRule.on_steps (index : Nat) (r : RelationRule α) :
    ∀ step ∈ r.steps s root index, step.On (s.Reaches root.model) := by
  rw [steps, joins]
  rcases walk_cases s root.model r.hops with ⟨targets, hw, hok⟩ | ⟨e, -, herr⟩
  · rw [hok]
    refine on_hopSteps (fun join hjoin => ?_) index 0 r.hops
    have htarget : join.target ∈ (chainJoins (index + 1) [] r.hops targets).map (·.target) :=
      List.mem_map_of_mem hjoin
    rw [map_target_chainJoins hw] at htarget
    exact hw.reaches join.target htarget
  · rw [herr]
    exact List.forall_mem_singleton.mpr trivial

theorem on_relationSteps (index : Nat) (rules : List (RelationRule α)) :
    ∀ step ∈ (relationSteps s root index rules).2, step.On (s.Reaches root.model) := by
  induction rules generalizing index with
  | nil => exact List.forall_mem_nil _
  | cons r rules ih =>
    rw [snd_relationSteps_cons, List.forall_mem_append]
    exact ⟨r.on_steps index, ih (index + 1)⟩

/-- The steps of a filter apply its rules to models that are reached from the root. -/
theorem Filter.on_plan (f : Filter α) :
    ∀ step ∈ (f.plan s root).2, step.On (s.Reaches root.model) := by
  rw [snd_plan, List.forall_mem_append]
  exact ⟨on_ruleSteps (.refl root.model) _ _ _, on_relationSteps 0 f.relations⟩

/-! ## Runs -/

theorem Step.run_congr {step : Step α} (h : step.On fun model => t.model? model = s.model? model)
    (input : α) : step.run t input = step.run s input := by
  cases step with
  | fail e => rfl
  | apply place model qualifier rule =>
    have hcheck : rule.check t model = rule.check s model := rule.check_congr h
    rw [run, run, hcheck]

/-- Steps on models that both schemas declare alike make the same run. -/
theorem runSteps_congr {steps : List (Step α)}
    (h : ∀ step ∈ steps, step.On fun model => t.model? model = s.model? model)
    (mode : ErrorMode) (input : α) (p : Progress) :
    runSteps mode t input p steps = runSteps mode s input p steps := by
  induction steps generalizing p with
  | nil => rfl
  | cons step steps ih =>
    obtain ⟨hstep, hsteps⟩ := List.forall_mem_cons.mp h
    rw [runSteps, runSteps, step.run_congr hstep]
    simp only [ih hsteps]

end

/-! ## Compilations -/

namespace Compiler

variable {s t : Schema} {entity : String} {f : Filter α}

theorem rootFor_congr (h : t.model? entity = s.model? entity) (mode : ErrorMode)
    (root? : Option Root) : rootFor ⟨t, mode, root?⟩ entity = rootFor ⟨s, mode, root?⟩ entity := by
  have htable : t.table? entity = s.table? entity := by rw [Schema.table?, Schema.table?, h]
  simp only [rootFor, deriveRoot, htable]

/-- Schemas that declare alike what is reached from the entity give one outcome. -/
theorem compile_congr (h : s.AgreesFrom t f.entity) (mode : ErrorMode) (root? : Option Root)
    (input : α) : compile ⟨t, mode, root?⟩ f input = compile ⟨s, mode, root?⟩ f input := by
  rw [compile, compile, rootFor_congr (h f.entity (.refl f.entity))]
  cases hroot : rootFor ⟨s, mode, root?⟩ f.entity with
  | error e => rfl
  | ok root =>
    rw [← model_of_rootFor hroot] at h
    have hsteps : ∀ step ∈ (f.plan s root).2,
        step.On fun model => t.model? model = s.model? model := by
      intro step hstep
      have hon := f.on_plan step hstep
      cases step with
      | fail e => trivial
      | apply place model qualifier rule => exact h model hon
    simp only [Filter.plan_congr h, runSteps_congr hsteps]

end Compiler

/-- **Locality of compilation.** A merge with a schema that declares neither the entity of a filter
    nor any name that relations of the first schema lead to from there gives the same outcome as the
    first schema alone, in both modes and with every root: the same values are read in the same
    order, and the result is the same predicate with the same root and joins, or the same error. -/
theorem compile_merge_eq {s t : Schema} {f : Filter α}
    (h : ∀ name, s.Reaches f.entity name → name ∉ t.modelNames) (mode : ErrorMode)
    (root? : Option Root) (input : α) :
    Compiler.compile ⟨s.merge t, mode, root?⟩ f input =
      Compiler.compile ⟨s, mode, root?⟩ f input := by
  apply Compiler.compile_congr
  intro name hname
  have hnone : t.model? name = none := NameTable.find?_eq_none_iff.mpr (h name hname)
  rw [Schema.model?_merge, hnone, Option.none_or]

/-- Books, authors with agencies that are not declared, and shops. -/
def tradeSchema : Schema :=
  (librarySchema.addField "Author" (.required "agency" (.relation "Agency"))).add
    ((Model.ofName "Shop").addField (.required "stock" (.relation "Book")))

/-- Other shops, and readers of books. -/
def readerModels : Schema :=
  (Schema.empty.add ((Model.ofName "Shop").addField (.required "city" (.scalar .string)))).add
    ((Model.ofName "Reader").addField (.required "shelf" (.relation "Book")))

theorem compile_merge_tradeSchema :
    (∀ name, tradeSchema.Reaches librarySearch.entity name → name ∉ readerModels.modelNames) ∧
      (tradeSchema.merge readerModels).modelNames = ["Book", "Author", "Shop", "Reader"] ∧
      (Compiler.compile ⟨tradeSchema.merge readerModels, .aggregate, none⟩ librarySearch
          ("Emma", 1815)).reads = [.direct 0, .direct 1, .onHop 0 0 0] ∧
      Compiler.compile ⟨tradeSchema.merge readerModels, .aggregate, none⟩ librarySearch
          ("Emma", 1815) =
        Compiler.compile ⟨tradeSchema, .aggregate, none⟩ librarySearch ("Emma", 1815) := by
  have hreached : ∀ name, tradeSchema.Reaches librarySearch.entity name →
      name ∈ ["Book", "Author", "Agency"] := by
    intro name h
    exact h.of_closed (by decide) (by decide)
  have hnew : ∀ name, tradeSchema.Reaches librarySearch.entity name →
      name ∉ readerModels.modelNames := by
    intro name h
    have hdisjoint : ∀ name ∈ ["Book", "Author", "Agency"], name ∉ readerModels.modelNames := by
      decide
    exact hdisjoint name (hreached name h)
  have hmerge := compile_merge_eq hnew .aggregate none ("Emma", 1815)
  refine ⟨hnew, rfl, ?_, hmerge⟩
  rw [hmerge]
  rfl

end SchemaFilter
