import SchemaFilter.Proofs.NameTable
import SchemaFilter.Schema.Lookup

/-!
# What lookups say

When a lookup fails and how, and what it says about the field that it finds. The models that are
looked up change by declarations, each of which is about one name.

Main definitions and results:

* `Schema.model?_add`, `Schema.model?_addField`: the stored models after a declaration;
* `Schema.resolve_eq_error_iff`, `Schema.resolve_eq_ok_iff`: the outcomes of a lookup;
* `FieldInfo.Describes`, `describes_fieldInfo`: what is said about a field.
-/

namespace SchemaFilter

namespace Schema

/-! ## Models after a declaration -/

theorem model?_add (s : Schema) (m : Model) (name : String) :
    (s.add m).model? name = if m.name = name then some m else s.model? name :=
  s.models.find?_insert m name

theorem model?_addField (s : Schema) (owner : String) (f : Field) (name : String) :
    (s.addField owner f).model? name =
      if owner = name then (s.model? name).map (·.addField f) else s.model? name :=
  s.models.find?_modify owner (Model.name_addField · f) name

theorem modelNames_addField (s : Schema) (owner : String) (f : Field) :
    (s.addField owner f).modelNames = s.modelNames :=
  s.models.names_modify owner (Model.name_addField · f)

/-! ## Outcomes -/

section

variable {s : Schema} {model field : String}

/-- A lookup fails if there is no such model, or else if that has no such field. -/
theorem resolve_eq_error_iff {e : LookupError} :
    s.resolve model field = .error e ↔
      (e = .unknownModel model ∧ s.model? model = none) ∨
        (e = .unknownField model field ∧
          ∃ m, s.model? model = some m ∧ m.field? field = none) := by
  rw [resolve]
  cases hm : s.model? model with
  | none => simp [eq_comm]
  | some m => cases hf : m.field? field <;> simp [hf, eq_comm]

theorem resolve_eq_ok_iff {info : FieldInfo} :
    s.resolve model field = .ok info ↔
      ∃ m f, s.model? model = some m ∧ m.field? field = some f ∧ info = fieldInfo m f := by
  rw [resolve]
  cases hm : s.model? model with
  | none => simp
  | some m => cases hf : m.field? field <;> simp [hf, eq_comm]

end

end Schema

/-! ## What there is to say about a field -/

/-- The first `map` attribute has the text as its first argument. -/
def MapsFirstTo (attributes : List Attribute) (text : String) : Prop :=
  ∃ before a after args, attributes = before ++ a :: after ∧ (∀ b ∈ before, b.name ≠ "map") ∧
    a.name = "map" ∧ a.args = .string text :: args

theorem mapsFirstTo_iff {attributes : List Attribute} {text : String} :
    MapsFirstTo attributes text ↔
      ((findAttribute? attributes "map").bind (·.args.head?)).bind (·.string?) = some text := by
  have hstring : ∀ v : AttributeValue, v.string? = some text ↔ v = .string text := by
    intro v
    cases v <;> simp [AttributeValue.string?]
  simp only [Option.bind_eq_some_iff, hstring, exists_eq_right, List.head?_eq_some_iff,
    findAttribute?, List.find?_eq_some_iff_append, MapsFirstTo]
  constructor
  · rintro ⟨before, a, after, args, heq, hbefore, ha, hargs⟩
    exact ⟨a, ⟨by simpa using ha, before, after, heq, by simpa using hbefore⟩, args, hargs⟩
  · rintro ⟨a, ⟨ha, before, after, heq, hbefore⟩, args, hargs⟩
    exact ⟨before, a, after, args, heq, by simpa using hbefore, by simpa using ha, hargs⟩

/-- What is to be said about the field `f` that has been asked for by the names of its model and
    itself. -/
structure FieldInfo.Describes (info : FieldInfo) (model field : String) (f : Field) : Prop where
  model_eq : info.model = model
  field_eq : info.field = field
  type_eq : info.type = f.type
  target_of_relation : ∀ target, f.type = .relation target → info.target? = some target
  target_of_scalar : ∀ type, f.type = .scalar type → info.target? = none
  collection_iff : info.cardinality = .collection ↔ f.modifier = .list ∨ f.modifier = .optionalList
  optional_iff : info.optional ↔ f.modifier = .optional ∨ f.modifier = .optionalList
  column_of_maps : ∀ text, MapsFirstTo f.attributes text → info.column = text
  column_of_not_maps : (¬∃ text, MapsFirstTo f.attributes text) → info.column = field

theorem describes_fieldInfo (m : Model) (f : Field) :
    (Schema.fieldInfo m f).Describes m.name f.name f where
  model_eq := rfl
  field_eq := rfl
  type_eq := rfl
  target_of_relation _ h := by rw [FieldInfo.target?, Schema.fieldInfo, h, FieldType.target?]
  target_of_scalar _ h := by rw [FieldInfo.target?, Schema.fieldInfo, h, FieldType.target?]
  collection_iff := by
    cases hf : f.modifier <;>
      simp [Schema.fieldInfo, Field.cardinality, hf, Modifier.cardinality, Cardinality.ofBool,
        Modifier.isList]
  optional_iff := by
    cases hf : f.modifier <;> simp [Schema.fieldInfo, hf, Modifier.isOptional]
  column_of_maps text h := by
    rw [Schema.fieldInfo, Field.column, storedName, mapsFirstTo_iff.mp h, Option.getD_some]
  column_of_not_maps h := by
    simp only [mapsFirstTo_iff, ← Option.isSome_iff_exists, Option.not_isSome_iff_eq_none] at h
    rw [Schema.fieldInfo, Field.column, storedName, h, Option.getD_none]

end SchemaFilter
