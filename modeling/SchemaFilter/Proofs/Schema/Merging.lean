import SchemaFilter.Proofs.NameTable
import SchemaFilter.Proofs.Schema.Validation

/-!
# Merged schemas

A merge takes every model of the second schema and, of the first, those that the second does not
declare. What makes a model valid lies in the model itself, but for one thing: its relations lead to
declared models. A merge declares whatever one of its two schemas does, so that it keeps valid
models valid, whichever of them it replaces.

Results:

* `Schema.model?_merge`, `Schema.modelNames_merge`: the models of a merge and their order;
* `Model.Valid.of_declares`: a valid model is valid in every schema that declares more;
* `validate_merge`: a merge of accepted schemas is accepted.
-/

namespace SchemaFilter

namespace Schema

variable (s t : Schema)

/-- A model of a merge is the one of the second schema, if that declares it. -/
theorem model?_merge (name : String) :
    (s.merge t).model? name = (t.model? name).or (s.model? name) :=
  s.models.find?_merge t.models name

/-- The models of the first schema come first, and the new ones of the second after them. -/
theorem modelNames_merge :
    (s.merge t).modelNames = s.modelNames ++ t.modelNames.filter (· ∉ s.modelNames) := by
  have hs : s.modelNames.Nodup := s.models.nodup_names
  have ht : t.modelNames.Nodup := t.models.nodup_names
  calc (s.merge t).modelNames
    _ = (s.modelNames ++ t.modelNames).eraseDups := s.models.names_merge t.models
    _ = s.modelNames.eraseDups ++ (t.modelNames.removeAll s.modelNames).eraseDups :=
      List.eraseDups_append
    _ = s.modelNames ++ t.modelNames.filter (· ∉ s.modelNames) := by
      rw [eraseDups_of_nodup hs, List.removeAll, eraseDups_of_nodup (ht.filter _)]
      simp

theorem declares_merge (name : String) :
    (s.merge t).declares name ↔ s.declares name ∨ t.declares name := by
  have hmem : ∀ u : Schema, u.declares name ↔ name ∈ u.modelNames := fun u =>
    u.models.contains_iff name
  rw [hmem, hmem, hmem, modelNames_merge, List.mem_append, List.mem_filter, decide_eq_true_eq]
  tauto

/-- Every model of a merge is one of the two schemas. -/
theorem mem_or_mem_of_mem_merge {s t : Schema} {m : Model} (h : m ∈ (s.merge t).models.items) :
    m ∈ s.models.items ∨ m ∈ t.models.items := by
  have hfind : (s.merge t).model? m.name = some m := NameTable.find?_eq_some_iff.mpr ⟨h, rfl⟩
  rw [model?_merge, Option.or_eq_some_iff] at hfind
  rcases hfind with ht | ⟨-, hs⟩
  · exact .inr (NameTable.find?_eq_some_iff.mp ht).1
  · exact .inl (NameTable.find?_eq_some_iff.mp hs).1

end Schema

/-- A valid model is valid in every schema that declares more. -/
theorem Model.Valid.of_declares {s t : Schema} {m : Model} (h : m.Valid s)
    (hst : ∀ name, s.declares name → t.declares name) : m.Valid t where
  fields_ne := h.fields_ne
  one_id := h.one_id
  targets_declared f hf target htype := hst target (h.targets_declared f hf target htype)
  ids_scalar := h.ids_scalar
  field_maps := h.field_maps
  model_maps := h.model_maps

theorem Schema.Valid.merge {s t : Schema} (hs : s.Valid) (ht : t.Valid) : (s.merge t).Valid := by
  intro m hm
  rcases mem_or_mem_of_mem_merge hm with hm | hm
  · exact (hs m hm).of_declares fun name h => (s.declares_merge t name).mpr (.inl h)
  · exact (ht m hm).of_declares fun name h => (s.declares_merge t name).mpr (.inr h)

/-- **Merging keeps validity.** Of two schemas that validators accept, every validator accepts the
    merge. It has the models of the first schema in order, and then the new ones of the second in
    order, and each of them as the second schema declares it, if that does, or else as the first
    one does. -/
theorem validate_merge {s t : Schema} {u v : Validator} (hs : (u.validate s).1 = .ok s)
    (ht : (v.validate t).1 = .ok t) :
    (∀ w : Validator, (w.validate (s.merge t)).1 = .ok (s.merge t)) ∧
      (s.merge t).modelNames = s.modelNames ++ t.modelNames.filter (· ∉ s.modelNames) ∧
      ∀ name, (s.merge t).model? name =
        if t.declares name then t.model? name else s.model? name := by
  refine ⟨fun w => ?_, s.modelNames_merge t, fun name => ?_⟩
  · have hvalid : (s.merge t).Valid :=
      (Validator.fst_validate_eq_ok_iff.mp hs).1.merge (Validator.fst_validate_eq_ok_iff.mp ht).1
    exact Validator.fst_validate_eq_ok_iff.mpr ⟨hvalid, rfl⟩
  · rw [Schema.model?_merge]
    by_cases h : t.declares name
    · obtain ⟨m, hm⟩ : ∃ m, t.model? name = some m := NameTable.contains_iff_exists.mp h
      rw [if_pos h, hm, Option.some_or]
    · have hm : t.model? name = none :=
        NameTable.find?_eq_none_iff.mpr (mt (t.models.contains_iff name).mpr h)
      rw [if_neg h, hm, Option.none_or]

/-- Books, and shops that sell them. -/
def shopModels : Schema :=
  (bookModels [bareField "isbn" (.scalar .string) ["id"]]).add
    ((Model.ofName "Shop").addField (bareField "stock" (.relation "Book") []))

/-- Books without a key, and authors; each leads to the other. -/
def authorModels : Schema :=
  (bookModels [bareField "title" (.scalar .string) [],
    bareField "author" (.relation "Author") []]).add
    ((Model.ofName "Author").addField (bareField "works" (.relation "Book") []))

theorem validate_merge_shopModels :
    (Validator.validate {} shopModels).1 = .ok shopModels ∧
      (Validator.validate {} authorModels).1 = .ok authorModels ∧
      (Validator.validate {} (shopModels.merge authorModels)).1 =
        .ok (shopModels.merge authorModels) ∧
      (shopModels.merge authorModels).modelNames = ["Book", "Shop", "Author"] ∧
      ((shopModels.merge authorModels).model? "Book").map (·.fields.names) =
        some ["title", "author"] := by
  have hshops : (Validator.validate {} shopModels).1 = .ok shopModels :=
    Validator.fst_validate_eq_ok_iff.mpr ⟨(Schema.violations_eq_nil_iff _).mp rfl, rfl⟩
  have hauthors : (Validator.validate {} authorModels).1 = .ok authorModels :=
    Validator.fst_validate_eq_ok_iff.mpr ⟨(Schema.violations_eq_nil_iff _).mp rfl, rfl⟩
  obtain ⟨hmerge, hnames, hmodels⟩ := validate_merge hshops hauthors
  refine ⟨hshops, hauthors, hmerge {}, hnames.trans rfl, ?_⟩
  rw [hmodels]
  rfl

end SchemaFilter
