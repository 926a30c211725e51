import SchemaFilter.Proofs.Compile.Acceptance
import SchemaFilter.Proofs.Compile.Errors
import SchemaFilter.Proofs.Schema.Validation

/-!
# What errors refer to

An error about a field holds of the schema: it names a field that is not there, or is of another
kind than the rule takes it for. Two faults never occur, since a check has excluded them before: a
relation without a target, and a leaf on a relation. Of a valid schema no error is about a model
that is not declared, for the root is declared and hops lead from declared models to declared ones.

Results:

* `reports_holdsIn`: every check on any model fails with an error that holds of the schema;
* `reports_namesDeclared`: on the declared models of a valid schema it names a declared one;
* `errors_refer_to_schema`: so do the errors that a compilation reports.
-/

namespace SchemaFilter

variable {α : Type}

/-! ## Errors that hold of a schema -/

/-- What a fault at a field of a model says holds of the schema. -/
def StructuralFault.HoldsAt (s : Schema) (model field : String) : StructuralFault → Prop
  | notFound (.unknownModel m) => m = model ∧ ¬s.declares model
  | notFound (.unknownField m f) =>
    m = model ∧ f = field ∧ s.declares model ∧ s.field? model field = none
  | isRelation => ∃ f, s.field? model field = some f ∧ f.isRelation
  | notRelation type => ∃ f, s.field? model field = some f ∧ f.type = type ∧ ¬f.isRelation
  | cardinality declared actual =>
    ∃ f, s.field? model field = some f ∧ f.isRelation ∧ f.cardinality = actual ∧ actual ≠ declared
  | noTarget | relationCompared | described _ => False

/-- What an error says about a field of a model holds of the schema. -/
def CompileError.HoldsIn (s : Schema) : CompileError → Prop
  | structuralMismatch model field fault => fault.HoldsAt s model field
  | typeMismatch model field _ _ => ∃ f, s.field? model field = some f ∧ ¬f.isRelation
  | _ => True

/-- If an error is about a field of a model, that model is declared, and the error is not that it is
    unknown. -/
def CompileError.NamesDeclared (s : Schema) : CompileError → Prop
  | structuralMismatch model _ fault =>
    s.declares model ∧ ∀ name, fault ≠ .notFound (.unknownModel name)
  | typeMismatch model _ _ _ => s.declares model
  | _ => True

/-- On a declared model, an error that holds of the schema names a declared model. -/
theorem CompileError.NamesDeclared.of_structural {s : Schema} {model field : String}
    {fault : StructuralFault} (h : fault.HoldsAt s model field) (hmodel : s.declares model) :
    (structuralMismatch model field fault).NamesDeclared s := by
  refine ⟨hmodel, ?_⟩
  rintro name rfl
  exact h.2 hmodel

/-! ## The errors of checks -/

section

variable {s : Schema} {model : String} {e : CompileError}

/-- A field that is not found is missing, or its model is. -/
theorem Schema.holdsAt_of_resolve {field : String} {e : LookupError}
    (h : s.resolve model field = .error e) :
    (StructuralFault.notFound e).HoldsAt s model field := by
  rcases resolve_eq_error_iff.mp h with ⟨rfl, hm⟩ | ⟨rfl, m, hm, hf⟩
  · refine ⟨rfl, fun hd => ?_⟩
    obtain ⟨m, hd⟩ := declares_iff.mp hd
    exact Option.some_ne_none m (hd.symm.trans hm)
  · exact ⟨rfl, rfl, declares_iff.mpr ⟨m, hm⟩, by rw [field?, hm, Option.bind_some, hf]⟩

/-- What is found is a field of the model. -/
theorem Schema.exists_field?_of_resolve {field : String} {info : FieldInfo}
    (h : s.resolve model field = .ok info) :
    ∃ f, s.field? model field = some f ∧
      info = ⟨model, field, f.column, f.type, f.cardinality, f.modifier.isOptional⟩ := by
  cases hf : s.field? model field with
  | none =>
    obtain ⟨e, he⟩ := resolve_of_field?_eq_none hf
    cases he.symm.trans h
  | some f => exact ⟨f, rfl, Except.ok.inj (h.symm.trans (resolve_of_field?_eq_some hf))⟩

/-- The error of a check is about the checked model. -/
def CompileError.IsAbout (model : String) : CompileError → Prop
  | structuralMismatch m _ _ | typeMismatch m _ _ _ => m = model
  | _ => False

theorem CompileError.NamesDeclared.of_isAbout (habout : e.IsAbout model) (h : e.HoldsIn s)
    (hmodel : s.declares model) : e.NamesDeclared s := by
  cases e with
  | structuralMismatch m field fault =>
    cases habout
    exact .of_structural h hmodel
  | typeMismatch m field expected found =>
    cases habout
    exact hmodel
  | _ => trivial

theorem RelationHop.holdsIn_of_check {hop : RelationHop α} (h : hop.check s model = .error e) :
    e.IsAbout model ∧ e.HoldsIn s := by
  rw [check] at h
  cases hr : s.resolve model hop.name with
  | error e' =>
    simp only [hr, Except.error.injEq] at h
    subst h
    exact ⟨rfl, Schema.holdsAt_of_resolve hr⟩
  | ok info =>
    obtain ⟨f, hf, rfl⟩ := Schema.exists_field?_of_resolve hr
    simp only [hr] at h
    split_ifs at h with hrelation hcardinality <;> cases h
    · exact ⟨rfl, f, hf, rfl, by simpa [Field.isRelation] using hrelation⟩
    · exact ⟨rfl, f, hf, by simpa [Field.isRelation] using hrelation, rfl, hcardinality⟩

theorem ParameterRule.holdsIn_of_check {r : ParameterRule α} (h : r.check s model = .error e) :
    e.IsAbout model ∧ e.HoldsIn s := by
  rw [check] at h
  cases hr : s.resolve model r.field with
  | error e' =>
    simp only [hr, Except.error.injEq] at h
    subst h
    exact ⟨rfl, Schema.holdsAt_of_resolve hr⟩
  | ok info =>
    obtain ⟨f, hf, rfl⟩ := Schema.exists_field?_of_resolve hr
    simp only [hr, FieldInfo.scalar?] at h
    cases htype : f.type with
    | relation target =>
      simp only [htype, FieldType.scalar?] at h
      cases h
      exact ⟨rfl, f, hf, by rw [Field.isRelation, htype]; rfl⟩
    | scalar type =>
      have hscalar : ¬f.isRelation := by rw [Field.isRelation, htype]; exact Bool.false_ne_true
      simp only [htype, FieldType.scalar?] at h
      split_ifs at h <;> cases h <;> exact ⟨rfl, f, hf, hscalar⟩

/-- A checked field is a scalar one, so that its leaf is only refused for its value. -/
theorem ParameterRule.holdsIn_of_leaf {r : ParameterRule α} {field : FieldInfo} {qualifier : String}
    {v : Value} (hc : r.check s model = .ok field)
    (h : field.leaf qualifier r.restriction v = .error e) : e.IsAbout model ∧ e.HoldsIn s := by
  obtain ⟨f, type, hf, htype, _, rfl⟩ := check_eq_ok_iff.mp hc
  have hscalar : ¬f.isRelation := by rw [Field.isRelation, htype]; exact Bool.false_ne_true
  obtain ⟨expected, rfl⟩ := FieldInfo.typeMismatch_of_leaf htype h
  exact ⟨rfl, f, hf, hscalar⟩

theorem ParameterRule.holdsIn_of_offer {r : ParameterRule α} {qualifier : String} {input : α}
    (h : r.offer s model qualifier input = .error e) : e.IsAbout model ∧ e.HoldsIn s := by
  rcases cases_of_offer_eq_error h with hc | ⟨field, hc, hl⟩
  · exact holdsIn_of_check hc
  · exact holdsIn_of_leaf hc hl

/-- Every check fails with an error that holds of the schema. -/
theorem reports_holdsIn (s : Schema) (input : α) :
    Reports s input (fun _ => True) (CompileError.HoldsIn s) where
  of_target _ _ := trivial
  of_hop _ h := (RelationHop.holdsIn_of_check h).2
  of_offer _ h := (ParameterRule.holdsIn_of_offer h).2
  of_conflict _ _ _ := trivial

/-- In a valid schema, relations of declared models lead to declared models. -/
theorem Schema.Valid.declares_target {target : String} {hop : RelationHop α} (hs : s.Valid)
    (h : hop.target? s model = some target) : s.declares target := by
  obtain ⟨f, hf, htype, _⟩ := RelationHop.target?_eq_some_iff.mp h
  obtain ⟨m, hm, hfield⟩ := Option.bind_eq_some_iff.mp hf
  have hmem : m ∈ s.models.items := NameTable.mem_of_find? hm
  exact (hs m hmem).targets_declared f (NameTable.mem_of_find? hfield) target htype

/-- In a valid schema, every check on a declared model fails with an error about a declared one. -/
theorem reports_namesDeclared (hs : s.Valid) (input : α) :
    Reports s input (fun model => s.declares model) (CompileError.NamesDeclared s) where
  of_target _ h := hs.declares_target h
  of_hop hmodel h :=
    have ⟨habout, hholds⟩ := RelationHop.holdsIn_of_check h
    .of_isAbout habout hholds hmodel
  of_offer hmodel h :=
    have ⟨habout, hholds⟩ := ParameterRule.holdsIn_of_offer h
    .of_isAbout habout hholds hmodel
  of_conflict _ _ _ := trivial

end

/-! ## The errors of compilations -/

/-- **References of errors.** Of the error that a compilation reports, and of the errors that this
    one gathers, each one about a field holds of the schema; none is that a relation has no target,
    and none that a leaf is on a relation. If the schema is valid, then each one about a field names
    a declared model and is not that a model is unknown. -/
theorem errors_refer_to_schema {c : Compiler} {f : Filter α} {input : α} {e : CompileError}
    (h : (c.compile f input).result = .error e) :
    (∀ e' ∈ e :: e.inner, e'.HoldsIn c.schema) ∧
      (∀ model field, .structuralMismatch model field .noTarget ∉ e :: e.inner ∧
        .structuralMismatch model field .relationCompared ∉ e :: e.inner) ∧
      (c.schema.validate = .ok c.schema → ∀ e' ∈ e :: e.inner, e'.NamesDeclared c.schema) := by
  have hholds : ∀ e' ∈ e :: e.inner, e'.HoldsIn c.schema := by
    refine c.forall_of_result_error (fun _ => trivial) (fun _ => trivial) trivial
      (fun _ _ => trivial) (fun root _ e he => ?_) h
    exact (reports_holdsIn c.schema input).of_mem_errors trivial he
  refine ⟨hholds, fun model field => ⟨hholds _, hholds _⟩, fun hvalid => ?_⟩
  have hs : c.schema.Valid := (Schema.validate_eq_ok_iff.mp hvalid).1
  refine c.forall_of_result_error (fun _ => trivial) (fun _ => trivial) trivial
    (fun _ _ => trivial) (fun root hroot e he => ?_) h
  have hdeclared : c.schema.declares root.model := by
    rw [Compiler.model_of_rootFor hroot]
    exact (Compiler.exists_rootFor_iff.mp ⟨root, hroot⟩).declared
  exact (reports_namesDeclared hs input).of_mem_errors hdeclared he

/-- A search that compares a year with a text, and asks for a field that authors do not have. -/
def misaskedSearch : Filter (String × Int64) where
  entity := "Book"
  parameters := [⟨"year", .equals, "since", .and, .single .string, fun q => .string q.1⟩]
  relations := [⟨[⟨"author", .single,
    [⟨"born", .equals, "since", .and, .single .int, fun q => .int q.2⟩]⟩]⟩]

theorem namesDeclared_misaskedSearch :
    ∃ e, (Compiler.compile ⟨librarySchema, .aggregate, none⟩ misaskedSearch
        ("Emma", 1815)).result = .error e ∧
      e.inner.length = 2 ∧ ∀ e' ∈ e :: e.inner, e'.NamesDeclared librarySchema := by
  refine ⟨_, rfl, rfl, ?_⟩
  obtain ⟨_, _, hdeclared⟩ := errors_refer_to_schema
    (c := ⟨librarySchema, .aggregate, none⟩) (f := misaskedSearch) rfl
  exact hdeclared rfl

end SchemaFilter
