import Mathlib.Data.List.Basic
import Mathlib.Tactic.SplitIfs
import SchemaFilter.Schema.Validation

/-!
# What validators report

A schema is valid if nothing of five kinds is wrong with it (`Schema.Valid`), and
`Schema.violations` lists what is. A validator answers with the schema or with this list, and
neither the schemas that it has seen before nor the errors that it found there make a difference.

Results:

* `Schema.violations_eq_nil_iff`: the schemas without violations are the valid ones;
* `Validator.errors_checkModel`: what the check of a model notes;
* `validators_report_violations`: the answers of a validator, to one schema and to any sequence.
-/

namespace SchemaFilter

/-! ## Valid schemas -/

/-- If the attribute is a `map`, it has one argument, and that is a string. -/
def Attribute.MapsToString (a : Attribute) : Prop :=
  a.name = "map" → ∃ text, a.args = [.string text]

/-- What has to hold of a model in a schema. -/
structure Model.Valid (s : Schema) (m : Model) : Prop where
  fields_ne : m.fields.items ≠ []
  one_id : m.idFields.length ≤ 1
  targets_declared : ∀ f ∈ m.fields.items, ∀ target, f.type = .relation target → s.declares target
  ids_scalar : ∀ f ∈ m.fields.items, ∀ a ∈ f.attributes, a.name = "id" → ¬f.isRelation
  field_maps : ∀ f ∈ m.fields.items, ∀ a ∈ f.attributes, a.MapsToString
  model_maps : ∀ a ∈ m.attributes, a.MapsToString

/-- All models are valid. -/
def Schema.Valid (s : Schema) : Prop := ∀ m ∈ s.models.items, m.Valid s

/-! ## Violations -/

/-- What is wrong with an attribute of a field, if anything is. -/
def Field.attributeViolation? (model : String) (f : Field) (a : Attribute) : Option SchemaError :=
  if a.name = "id" ∧ f.isRelation then
    some (.invalidAttribute "id" (.idOnRelation model f.name))
  else if a.name = "map" ∧ !a.hasOneString then
    some (.invalidAttribute "map" (.fieldMapArgument model f.name))
  else none

/-- The unknown model of a relation, and then what is wrong with the attributes. -/
def Field.violations (s : Schema) (model : String) (f : Field) : List SchemaError :=
  (match f.type with
    | .relation target =>
      if s.declares target then [] else [.unknownType model f.name target]
    | .scalar _ => []) ++
    f.attributes.filterMap (f.attributeViolation? model)

/-- No field, several `@id` fields, what is wrong with the fields, and the attributes `@@map` with
    other arguments than one string. -/
def Model.violations (s : Schema) (m : Model) : List SchemaError :=
  (if m.fields.items.isEmpty then [.invalidModel m.name .noField] else []) ++
    (if 1 < m.idFields.length then
      [.invalidModel m.name (.severalIds (m.idFields.map (·.name)))] else []) ++
    m.fields.items.flatMap (·.violations s m.name) ++
    (m.attributes.filter fun a => a.name = "map" ∧ !a.hasOneString).map fun _ =>
      .invalidAttribute "map" (.modelMapArgument m.name)

/-- All that is wrong with a schema, model by model. -/
def Schema.violations (s : Schema) : List SchemaError := s.models.items.flatMap (·.violations s)

theorem Attribute.hasOneString_iff (a : Attribute) :
    a.hasOneString ↔ ∃ text, a.args = [.string text] := by
  unfold hasOneString
  obtain _ | ⟨value, _ | ⟨value', args⟩⟩ := a.args
  · simp
  · cases value <;> simp [AttributeValue.string?]
  · simp

theorem Attribute.mapsToString_iff (a : Attribute) :
    a.MapsToString ↔ ¬(a.name = "map" ∧ !a.hasOneString) := by
  rw [MapsToString, ← a.hasOneString_iff, not_and]
  simp only [Bool.not_eq_true', Bool.not_eq_false]

theorem Field.attributeViolation?_eq_none_iff (model : String) (f : Field) (a : Attribute) :
    f.attributeViolation? model a = none ↔ (a.name = "id" → ¬f.isRelation) ∧ a.MapsToString := by
  rw [a.mapsToString_iff, ← not_and, attributeViolation?]
  by_cases hid : a.name = "id" ∧ f.isRelation
  · simp [hid]
  · rw [if_neg hid, and_iff_right hid]
    split_ifs with hmap
    · simp [hmap]
    · simp only [hmap, not_false_eq_true]

theorem Field.violations_eq_nil_iff (s : Schema) (model : String) (f : Field) :
    f.violations s model = [] ↔
      (∀ target, f.type = .relation target → s.declares target) ∧
        ∀ a ∈ f.attributes, (a.name = "id" → ¬f.isRelation) ∧ a.MapsToString := by
  have htarget : (match f.type with
      | .relation target =>
        if s.declares target then [] else [.unknownType model f.name target]
      | .scalar _ => []) = ([] : List SchemaError) ↔
      ∀ target, f.type = .relation target → s.declares target := by
    cases f.type with
    | scalar type => simp
    | relation target => simp
  rw [violations, List.append_eq_nil_iff, htarget, List.filterMap_eq_nil_iff]
  simp only [attributeViolation?_eq_none_iff]

theorem Model.violations_eq_nil_iff (s : Schema) (m : Model) :
    m.violations s = [] ↔ m.Valid s := by
  have hnone : ∀ {p : Prop} [Decidable p] (e : SchemaError),
      (if p then [e] else []) = [] ↔ ¬p := by
    intro p _ e
    split_ifs with h <;> simp [h]
  rw [violations, List.append_eq_nil_iff, List.append_eq_nil_iff, List.append_eq_nil_iff, hnone,
    hnone, List.flatMap_eq_nil_iff, List.map_eq_nil_iff, List.filter_eq_nil_iff]
  simp only [Field.violations_eq_nil_iff, decide_eq_true_eq, ← Attribute.mapsToString_iff,
    List.isEmpty_iff, Nat.not_lt]
  constructor
  · rintro ⟨⟨⟨hfields, hids⟩, hfield⟩, hmaps⟩
    exact {
      fields_ne := hfields
      one_id := hids
      targets_declared := fun f hf => (hfield f hf).1
      ids_scalar := fun f hf a ha => ((hfield f hf).2 a ha).1
      field_maps := fun f hf a ha => ((hfield f hf).2 a ha).2
      model_maps := hmaps }
  · intro h
    refine ⟨⟨⟨h.fields_ne, h.one_id⟩, fun f hf => ⟨h.targets_declared f hf, fun a ha => ?_⟩⟩,
      h.model_maps⟩
    exact ⟨h.ids_scalar f hf a ha, h.field_maps f hf a ha⟩

/-- Nothing is wrong with the valid schemas, and with no others. -/
theorem Schema.violations_eq_nil_iff (s : Schema) : s.violations = [] ↔ s.Valid := by
  rw [violations, List.flatMap_eq_nil_iff, Valid]
  simp only [Model.violations_eq_nil_iff]

/-! ## What the checks note -/

namespace Validator

@[simp] theorem errors_note (v : Validator) (e : SchemaError) :
    (v.note e).errors = v.errors ++ [e] := rfl

/-- Checks in a row note what each of them does. -/
theorem errors_foldl {β : Type} {check : Validator → β → Validator} {found : β → List SchemaError}
    (h : ∀ v b, (check v b).errors = v.errors ++ found b) (bs : List β) (v : Validator) :
    (bs.foldl check v).errors = v.errors ++ bs.flatMap found := by
  induction bs generalizing v with
  | nil => simp
  | cons b bs ih => rw [List.foldl_cons, ih, h, List.flatMap_cons, List.append_assoc]

theorem errors_checkMap {a : Attribute} (ha : a.name = "map") (fault : AttributeFault)
    (v : Validator) :
    (v.checkMap fault a).errors =
      v.errors ++ if a.hasOneString then [] else [.invalidAttribute "map" fault] := by
  rw [checkMap]
  split_ifs <;> simp [ha]

theorem errors_checkFieldAttribute (model : String) (f : Field) (v : Validator) (a : Attribute) :
    (checkFieldAttribute model f v a).errors =
      v.errors ++ (f.attributeViolation? model a).toList := by
  by_cases hid : a.name = "id" ∧ f.isRelation
  · simp [checkFieldAttribute, Field.attributeViolation?, hid]
  · rw [checkFieldAttribute, Field.attributeViolation?, if_neg hid, if_neg hid]
    by_cases hmap : a.name = "map"
    · rw [if_pos hmap, errors_checkMap hmap]
      cases a.hasOneString <;> simp [hmap]
    · simp [hmap]

theorem errors_checkTarget (s : Schema) (model : String) (f : Field) (v : Validator) :
    (v.checkTarget s model f).errors =
      v.errors ++ match f.type with
        | .relation target =>
          if s.declares target then [] else [.unknownType model f.name target]
        | .scalar _ => [] := by
  rw [checkTarget]
  cases f.type with
  | scalar type => simp [FieldType.target?]
  | relation target =>
    simp only [FieldType.target?]
    split_ifs <;> simp

theorem errors_checkField (s : Schema) (model : String) (v : Validator) (f : Field) :
    (checkField s model v f).errors = v.errors ++ f.violations s model := by
  have hattributes : ∀ v : Validator,
      (f.attributes.foldl (checkFieldAttribute model f) v).errors =
        v.errors ++ f.attributes.filterMap (f.attributeViolation? model) := by
    intro v
    rw [errors_foldl (errors_checkFieldAttribute model f), List.filterMap_eq_flatMap_toList]
  rw [checkField, hattributes, errors_checkTarget, List.append_assoc, Field.violations]

theorem errors_checkNonempty (m : Model) (v : Validator) :
    (v.checkNonempty m).errors =
      v.errors ++ if m.fields.items.isEmpty then [.invalidModel m.name .noField] else [] := by
  rw [checkNonempty, NameTable.isEmpty]
  split_ifs <;> simp

theorem errors_checkIds (m : Model) (v : Validator) :
    (v.checkIds m).errors =
      v.errors ++ if 1 < m.idFields.length then
        [.invalidModel m.name (.severalIds (m.idFields.map (·.name)))] else [] := by
  rw [checkIds]
  split_ifs <;> simp

theorem errors_checkModelAttribute (m : Model) (v : Validator) (a : Attribute) :
    (checkModelAttribute m v a).errors =
      v.errors ++ if a.name = "map" ∧ !a.hasOneString then
        [.invalidAttribute "map" (.modelMapArgument m.name)] else [] := by
  rw [checkModelAttribute]
  by_cases hmap : a.name = "map"
  · rw [if_pos hmap, errors_checkMap hmap]
    cases a.hasOneString <;> simp [hmap]
  · simp [hmap]

/-- The check of a model notes what is wrong with it. -/
theorem errors_checkModel (s : Schema) (v : Validator) (m : Model) :
    (checkModel s v m).errors = v.errors ++ m.violations s := by
  have hfilter : (m.attributes.flatMap fun a => if a.name = "map" ∧ !a.hasOneString then
        [SchemaError.invalidAttribute "map" (.modelMapArgument m.name)] else []) =
      (m.attributes.filter fun a => a.name = "map" ∧ !a.hasOneString).map fun _ =>
        .invalidAttribute "map" (.modelMapArgument m.name) := by
    induction m.attributes with
    | nil => rfl
    | cons a as ih =>
      rw [List.flatMap_cons, ih, List.filter_cons]
      split_ifs with h h' h' <;> simp_all
  simp only [checkModel]
  rw [errors_foldl (errors_checkModelAttribute m), hfilter,
    errors_foldl (errors_checkField s m.name), errors_checkIds, errors_checkNonempty,
    Model.violations]
  simp only [List.append_assoc]

/-- The answer to a schema depends on that schema alone, and leaves the validator as a new one. -/
theorem validate_eq (v : Validator) (s : Schema) :
    v.validate s =
      (if s.violations = [] then .ok s
        else .error (.validationFailed s.violations.length s.violations), {}) := by
  have herrors : (s.models.items.foldl (checkModel s) { v with errors := [] }).errors =
      s.violations := by
    rw [errors_foldl (errors_checkModel s), List.nil_append, Schema.violations]
  simp only [validate, herrors, List.isEmpty_iff]
  split_ifs with h
  · exact Prod.ext rfl (congrArg Validator.mk (herrors.trans h))
  · rfl

/-- The answers of one validator to schemas in turn. -/
def answers : Validator → List Schema → List (Except SchemaError Schema)
  | _, [] => []
  | v, s :: ss => (v.validate s).1 :: (v.validate s).2.answers ss

end Validator

/-- The schemas that a validator accepts are the valid ones. -/
theorem Validator.fst_validate_eq_ok_iff {v : Validator} {s t : Schema} :
    (v.validate s).1 = .ok t ↔ s.Valid ∧ t = s := by
  rw [validate_eq, ← Schema.violations_eq_nil_iff]
  split_ifs with h
  · simp [h, eq_comm]
  · simp [h]

theorem Schema.validate_eq_ok_iff {s t : Schema} : s.validate = .ok t ↔ s.Valid ∧ t = s :=
  Validator.fst_validate_eq_ok_iff

/-- The valid schema of a text is its schema, if that is valid. -/
theorem Schema.parseValid_eq_ok_iff {text : String} {s : Schema} :
    parseValid text = .ok s ↔ parse text = .ok s ∧ s.Valid := by
  unfold parseValid
  cases parse text with
  | error e => exact iff_of_false nofun fun h => nomatch h.1
  | ok t =>
    show t.validate = .ok s ↔ _
    rw [validate_eq_ok_iff, Except.ok.injEq]
    constructor
    · rintro ⟨hvalid, rfl⟩
      exact ⟨rfl, hvalid⟩
    · rintro ⟨rfl, hvalid⟩
      exact ⟨hvalid, rfl⟩

/-- **Answers of validators.** To a valid schema a validator answers with that schema, and to any
    other with all its violations and their number, which is also what the answer says in words. To
    schemas in turn it answers like a new validator to each. -/
theorem validators_report_violations (v : Validator) :
    (∀ s : Schema, s.Valid → (v.validate s).1 = .ok s) ∧
      (∀ s : Schema, ¬s.Valid → s.violations ≠ [] ∧
        (v.validate s).1 = .error (.validationFailed s.violations.length s.violations) ∧
        ∀ e, (v.validate s).1 = .error e →
          e.message = s!"schema validation failed with {s.violations.length} error(s)") ∧
      ∀ ss : List Schema, v.answers ss = ss.map fun s => (Validator.validate {} s).1 := by
  refine ⟨fun s h => ?_, fun s h => ?_, fun ss => ?_⟩
  · rw [v.validate_eq, if_pos (s.violations_eq_nil_iff.mpr h)]
  · have hne : s.violations ≠ [] := mt s.violations_eq_nil_iff.mp h
    have hanswer : (v.validate s).1 =
        .error (.validationFailed s.violations.length s.violations) := by
      rw [v.validate_eq, if_neg hne]
    refine ⟨hne, hanswer, fun e he => ?_⟩
    rw [← Except.error.inj (hanswer.symm.trans he)]
    rfl
  · induction ss generalizing v with
    | nil => rfl
    | cons s ss ih =>
      rw [Validator.answers, List.map_cons, ih, v.validate_eq, Validator.validate_eq]

/-- A schema of one model with the given fields. -/
def bookModels (fields : List Field) : Schema :=
  Schema.empty.add (fields.foldl Model.addField (Model.ofName "Book"))

/-- A field with attributes of the given names, which have no arguments. -/
def bareField (name : String) (type : FieldType) (attributes : List String) : Field :=
  ⟨⟨name, {}⟩, type, .required, attributes.map fun a => ⟨⟨a, {}⟩, [], {}⟩, none, {}⟩

/-- Books with two keys, one of them an author who is not declared, and a column without a name. -/
def strayBooks : Schema :=
  bookModels [bareField "isbn" (.scalar .string) ["id"],
    bareField "author" (.relation "Author") ["map", "id"]]

theorem answers_strayBooks :
    Validator.answers {} [strayBooks, bookModels [bareField "isbn" (.scalar .string) ["id"]],
        bookModels []] =
      [.error (.validationFailed 4 [.invalidModel "Book" (.severalIds ["isbn", "author"]),
          .unknownType "Book" "author" "Author",
          .invalidAttribute "map" (.fieldMapArgument "Book" "author"),
          .invalidAttribute "id" (.idOnRelation "Book" "author")]),
        .ok (bookModels [bareField "isbn" (.scalar .string) ["id"]]),
        .error (.validationFailed 1 [.invalidModel "Book" .noField])] := by
  obtain ⟨hvalid, hinvalid, hanswers⟩ := validators_report_violations {}
  have hstray : ¬strayBooks.Valid :=
    mt strayBooks.violations_eq_nil_iff.mpr (List.cons_ne_nil _ _)
  have hgood : (bookModels [bareField "isbn" (.scalar .string) ["id"]]).Valid :=
    (Schema.violations_eq_nil_iff _).mp rfl
  have hempty : ¬(bookModels []).Valid :=
    mt (bookModels []).violations_eq_nil_iff.mpr (List.cons_ne_nil _ _)
  rw [hanswers, List.map_cons, List.map_cons, List.map_cons, List.map_nil,
    (hinvalid _ hstray).2.1, hvalid _ hgood, (hinvalid _ hempty).2.1]
  rfl

end SchemaFilter
