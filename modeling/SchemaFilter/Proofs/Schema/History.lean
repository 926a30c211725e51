import SchemaFilter.Proofs.Schema.Lookup
import SchemaFilter.Proofs.Schema.Parsing
import SchemaFilter.Proofs.Schema.Validation

/-!
# What a schema was built from

A schema starts empty, or with the models of a text, and grows by models, by fields on stored
models, and by merges, which declare one model after the other. What it answers can be read off
these declarations alone: a name leads to the last model that was declared under it, with the fields
that were declared on it since.

Main definitions and results:

* `IsCurrent`: the model that declarations leave under a name;
* `Schema.Reflects.apply`, `Schema.Reflects.foldl`: one declaration, and a run of them;
* `Schema.AnswersFor`, `answersFor_edited`: the answers of a schema are about what was declared.
-/

namespace SchemaFilter

/-! ## Declarations -/

/-- A declaration of a model, or of a field on the stored model of a name. -/
inductive Declaration where
  | model (m : Model)
  | field (owner : String) (f : Field)

namespace Declaration

def model? : Declaration → Option Model
  | model m => some m
  | field .. => none

/-- The model stored under the name, with the declared field if that is declared on it. -/
def extend (name : String) (m : Model) : Declaration → Model
  | model _ => m
  | field owner f => if owner = name then m.addField f else m

/-- The schema after the declaration. -/
def apply (s : Schema) : Declaration → Schema
  | model m => s.add m
  | field owner f => s.addField owner f

end Declaration

/-- The names of the declared models, in the order of their first declaration. -/
def declaredNames (h : List Declaration) : List String :=
  ((h.filterMap Declaration.model?).map Model.name).eraseDups

/-- Under the name, `m` is what the last model declared by `h` has become by the fields that were
    declared on it since. -/
def IsCurrent (h : List Declaration) (name : String) (m : Model) : Prop :=
  ∃ before first after, h = before ++ .model first :: after ∧ first.name = name ∧
    (∀ later, .model later ∈ after → later.name ≠ name) ∧
    m = after.foldl (Declaration.extend name) first

/-! ## One more declaration -/

theorem concat_eq_append_cons_iff {α : Type} {l before after : List α} {d b : α} :
    l ++ [d] = before ++ b :: after ↔
      (l = before ∧ d = b ∧ after = []) ∨
        ∃ rest, after = rest ++ [d] ∧ l = before ++ b :: rest := by
  constructor
  · intro heq
    rcases List.eq_nil_or_concat after with rfl | ⟨rest, c, rfl⟩
    · obtain ⟨rfl, hd⟩ := List.append_inj' heq rfl
      exact .inl ⟨rfl, List.singleton_injective hd, rfl⟩
    · rw [List.concat_eq_append, ← List.cons_append, ← List.append_assoc] at heq
      obtain ⟨rfl, hd⟩ := List.append_inj' heq rfl
      exact .inr ⟨rest, by rw [List.concat_eq_append, hd], rfl⟩
  · rintro (⟨rfl, rfl, rfl⟩ | ⟨rest, rfl, rfl⟩) <;> simp

section

variable {h : List Declaration} {name : String} {m : Model}

theorem not_isCurrent_nil : ¬IsCurrent [] name m := by
  rintro ⟨before, first, after, heq, -⟩
  exact absurd heq.symm (by simp)

/-- Either the model is declared last; or one was current before, the last declaration does not
    replace it, and it may have got a field. -/
theorem isCurrent_concat {d : Declaration} :
    IsCurrent (h ++ [d]) name m ↔
      (d = .model m ∧ m.name = name) ∨
        ∃ m', IsCurrent h name m' ∧ (∀ later, d = .model later → later.name ≠ name) ∧
          m = d.extend name m' := by
  have hmem : ∀ (rest : List Declaration) (p : Model → Prop),
      (∀ later, .model later ∈ rest ++ [d] → p later) ↔
        (∀ later, .model later ∈ rest → p later) ∧ ∀ later, d = .model later → p later := by
    intro rest p
    simp only [List.mem_append, List.mem_singleton, or_imp, forall_and, eq_comm]
  constructor
  · rintro ⟨before, first, after, heq, hname, hafter, rfl⟩
    rcases concat_eq_append_cons_iff.mp heq with ⟨rfl, rfl, rfl⟩ | ⟨rest, rfl, rfl⟩
    · exact .inl ⟨rfl, hname⟩
    · obtain ⟨hrest, hd⟩ := (hmem rest _).mp hafter
      exact .inr ⟨_, ⟨before, first, rest, rfl, hname, hrest, rfl⟩, hd, List.foldl_concat ..⟩
  · rintro (⟨rfl, hname⟩ | ⟨m', ⟨before, first, rest, rfl, hname, hrest, rfl⟩, hd, rfl⟩)
    · exact ⟨h, m, [], rfl, hname, by simp, rfl⟩
    · exact ⟨before, first, rest ++ [d], concat_eq_append_cons_iff.mpr (.inr ⟨rest, rfl, rfl⟩),
        hname, (hmem rest _).mpr ⟨hrest, hd⟩, (List.foldl_concat ..).symm⟩

theorem declaredNames_concat_model (first : Model) :
    declaredNames (h ++ [.model first]) =
      if first.name ∈ declaredNames h then declaredNames h
      else declaredNames h ++ [first.name] := by
  simp only [declaredNames, List.mem_eraseDups, ← eraseDups_concat]
  rw [List.filterMap_append, List.map_append]
  rfl

theorem declaredNames_concat_field (owner : String) (f : Field) :
    declaredNames (h ++ [.field owner f]) = declaredNames h := by
  rw [declaredNames, List.filterMap_append]
  exact congrArg (fun ms : List Model => (ms.map Model.name).eraseDups) (List.append_nil _)

end

/-! ## Schemas that reflect declarations -/

namespace Schema

/-- The schema has the models that the declarations leave, in the order of their names. -/
structure Reflects (s : Schema) (h : List Declaration) : Prop where
  modelNames_eq : s.modelNames = declaredNames h
  model?_iff : ∀ name m, s.model? name = some m ↔ IsCurrent h name m

variable {s : Schema} {h : List Declaration}

/-- What a declaration does to the stored models, in the terms of `isCurrent_concat`. -/
theorem model?_apply {d : Declaration} {name : String} {m : Model} :
    (d.apply s).model? name = some m ↔
      (d = .model m ∧ m.name = name) ∨
        ∃ m', s.model? name = some m' ∧ (∀ later, d = .model later → later.name ≠ name) ∧
          m = d.extend name m' := by
  cases d with
  | model first =>
    rw [Declaration.apply, model?_add]
    split_ifs with hname
    · constructor
      · rintro ⟨rfl⟩
        exact .inl ⟨rfl, hname⟩
      · rintro (⟨⟨rfl⟩, -⟩ | ⟨m', -, hne, -⟩)
        · rfl
        · exact absurd hname (hne first rfl)
    · constructor
      · intro hm
        exact .inr ⟨m, hm, fun later => by rintro ⟨rfl⟩; exact hname, rfl⟩
      · rintro (⟨⟨rfl⟩, hname'⟩ | ⟨m', hm, -, rfl⟩)
        · exact absurd hname' hname
        · exact hm
  | field owner f =>
    rw [Declaration.apply, model?_addField]
    split_ifs with hname
    · simp [Declaration.extend, hname, Option.map_eq_some_iff, eq_comm (a := m)]
    · simp [Declaration.extend, hname]

theorem reflects_empty : empty.Reflects [] where
  modelNames_eq := rfl
  model?_iff _ m :=
    ⟨fun h => absurd h.symm (Option.some_ne_none m), fun h => absurd h not_isCurrent_nil⟩

/-- One more declaration, on both sides. -/
theorem Reflects.apply (hs : s.Reflects h) (d : Declaration) :
    (d.apply s).Reflects (h ++ [d]) where
  modelNames_eq := by
    cases d with
    | model first =>
      rw [declaredNames_concat_model, ← hs.modelNames_eq]
      exact s.models.names_insert first
    | field owner f =>
      rw [declaredNames_concat_field, ← hs.modelNames_eq]
      exact s.modelNames_addField owner f
  model?_iff name m := by
    rw [model?_apply, isCurrent_concat]
    simp only [hs.model?_iff]

/-- A run of declarations. -/
theorem Reflects.foldl (hs : s.Reflects h) (ds : List Declaration) :
    (ds.foldl Declaration.apply s).Reflects (h ++ ds) := by
  induction ds generalizing s h with
  | nil => rwa [List.append_nil]
  | cons d ds ih =>
    have hd := ih (hs.apply d)
    rwa [List.append_assoc, List.singleton_append] at hd

end Schema

/-! ## Edited schemas -/

/-- A change of a schema. -/
inductive Edit where
  | add (m : Model)
  | addField (owner : String) (f : Field)
  | merge (other : Schema)

/-- The schema after the change. -/
def Edit.apply (s : Schema) : Edit → Schema
  | add m => s.add m
  | addField owner f => s.addField owner f
  | merge other => s.merge other

/-- What the change declares. -/
def Edit.declarations : Edit → List Declaration
  | add m => [.model m]
  | addField owner f => [.field owner f]
  | merge other => other.models.items.map .model

namespace Schema

/-- The schema after changes, one after the other. -/
def edited (s : Schema) (es : List Edit) : Schema := es.foldl Edit.apply s

theorem foldl_apply_models (s : Schema) (ms : List Model) :
    (ms.map Declaration.model).foldl Declaration.apply s = ⟨s.models.extend ms⟩ := by
  induction ms generalizing s with
  | nil => rfl
  | cons m ms ih => exact ih (s.add m)

theorem edited_eq_foldl (s : Schema) (es : List Edit) :
    s.edited es = (es.flatMap Edit.declarations).foldl Declaration.apply s := by
  induction es generalizing s with
  | nil => rfl
  | cons e es ih =>
    have he : e.apply s = e.declarations.foldl Declaration.apply s := by
      cases e with
      | add m => rfl
      | addField owner f => rfl
      | merge other =>
        exact (congrArg mk (s.models.merge_eq_extend other.models)).trans
          (s.foldl_apply_models other.models.items).symm
    rw [List.flatMap_cons, List.foldl_append, ← he]
    exact ih (e.apply s)

/-- Every schema reflects the declarations of its models. -/
theorem reflects_models (s : Schema) : s.Reflects (s.models.items.map .model) := by
  have hs : (s.models.items.map Declaration.model).foldl Declaration.apply empty = s :=
    (foldl_apply_models empty s.models.items).trans (congrArg mk s.models.extend_empty)
  have h := reflects_empty.foldl (s.models.items.map .model)
  rwa [hs, List.nil_append] at h

theorem Reflects.edited {s : Schema} {h : List Declaration} (hs : s.Reflects h) (es : List Edit) :
    (s.edited es).Reflects (h ++ es.flatMap Edit.declarations) := by
  rw [edited_eq_foldl]
  exact hs.foldl _

/-- What the schema answers is about what was declared. A model, and a field of it, is stored under
    its own name, and found under it only. A lookup fails if the model is not declared, or else if
    it has no such field, and otherwise describes this field of this model. -/
structure AnswersFor (s : Schema) (h : List Declaration) : Prop where
  model_stored : ∀ key m, (key, m) ∈ s.models.byKey.entries → m.name = key
  field_stored : ∀ m ∈ s.models.items, ∀ key f, (key, f) ∈ m.fields.byKey.entries → f.name = key
  model?_eq_some_iff : ∀ name m, s.model? name = some m ↔ m ∈ s.models.items ∧ m.name = name
  field?_eq_some_iff : ∀ m ∈ s.models.items, ∀ name f,
    m.field? name = some f ↔ f ∈ m.fields.items ∧ f.name = name
  modelNames_eq : s.modelNames = declaredNames h
  model?_iff : ∀ name m, s.model? name = some m ↔ IsCurrent h name m
  resolve_error_iff : ∀ model field e, s.resolve model field = .error e ↔
    (e = .unknownModel model ∧ model ∉ declaredNames h) ∨
      (e = .unknownField model field ∧ ∃ m, IsCurrent h model m ∧ m.field? field = none)
  resolve_ok : ∀ model field m f, IsCurrent h model m → m.field? field = some f →
    ∃ info, s.resolve model field = .ok info ∧ info.Describes model field f

theorem Reflects.answersFor {s : Schema} {h : List Declaration} (hs : s.Reflects h) :
    s.AnswersFor h where
  model_stored key m hm := s.models.built.keyed (key, m) hm
  field_stored m _ key f hf := m.fields.built.keyed (key, f) hf
  model?_eq_some_iff name m := NameTable.find?_eq_some_iff
  field?_eq_some_iff m _ name f := NameTable.find?_eq_some_iff
  modelNames_eq := hs.modelNames_eq
  model?_iff := hs.model?_iff
  resolve_error_iff model field e := by
    have hdeclared : s.model? model = none ↔ model ∉ declaredNames h := by
      rw [← hs.modelNames_eq]
      exact NameTable.find?_eq_none_iff
    rw [resolve_eq_error_iff, hdeclared]
    simp only [hs.model?_iff]
  resolve_ok model field m f hm hf := by
    have hmodel : s.model? model = some m := (hs.model?_iff model m).mpr hm
    obtain rfl : m.name = model := NameTable.name_of_find? hmodel
    obtain rfl : f.name = field := NameTable.name_of_find? hf
    exact ⟨fieldInfo m f, resolve_eq_ok_iff.mpr ⟨m, f, hmodel, hf, rfl⟩, describes_fieldInfo m f⟩

end Schema

open SchemaText

/-- **Lookups are about what was declared.** A schema that was built from the empty one answers for
    the declarations of its changes, and one that was built from a parsed text also for the models
    that this text is a layout of, which come before. -/
theorem answersFor_edited :
    (∀ es, (Schema.empty.edited es).AnswersFor (es.flatMap Edit.declarations)) ∧
      ∀ text s, Schema.parse text = .ok s →
        ∃ ds, IsLayout ds text ∧ List.Forall₂ ModelDef.Declares ds s.models.items ∧
          ∀ es, (s.edited es).AnswersFor
            (s.models.items.map .model ++ es.flatMap Edit.declarations) := by
  refine ⟨fun es => (Schema.reflects_empty.edited es).answersFor, fun text s hs => ?_⟩
  obtain ⟨ns, hns⟩ := exists_readsModels_of_parse hs
  obtain ⟨ds, hlayout, hreads⟩ := hns.exists_layout
  rw [parse_of_readsModels hns] at hs
  exact ⟨ds, hlayout, declares_of_declareModels hreads hs,
    fun es => (s.reflects_models.edited es).answersFor⟩

def catalogueText : String := "model Book \x7b title String @map(\"name\") \x7d"

def isbnField : Field := bareField "isbn" (.scalar .string) ["id"]

def shopsField : Field := { bareField "shops" (.relation "Shop") [] with modifier := .list }

/-- Shops, a field of authors who are not declared, and books anew, which are sold in shops. -/
def catalogueEdits : List Edit :=
  [.add (Model.ofName "Shop"), .addField "Author" (bareField "born" (.scalar .date) []),
    .merge (bookModels [isbnField]), .addField "Book" shopsField]

theorem answersFor_catalogueEdits :
    ∃ s, Schema.parse catalogueText = .ok s ∧
      (s.edited catalogueEdits).modelNames = ["Book", "Shop"] ∧
      (s.edited catalogueEdits).resolve "Author" "born" = .error (.unknownModel "Author") ∧
      (s.edited catalogueEdits).resolve "Book" "title" = .error (.unknownField "Book" "title") ∧
      ∃ info, (s.edited catalogueEdits).resolve "Book" "shops" = .ok info ∧
        info.target? = some "Shop" ∧ info.cardinality = .collection ∧ info.column = "shops" := by
  obtain ⟨s, hparse, hnames⟩ : ∃ s, Schema.parse catalogueText = .ok s ∧ s.modelNames = ["Book"] :=
    exists_parse_of_map (by decide +kernel)
  obtain ⟨-, -, -, hanswers⟩ := answersFor_edited.2 catalogueText s hparse
  have h := hanswers catalogueEdits
  have hdeclared : declaredNames (s.models.items.map .model ++
      catalogueEdits.flatMap Edit.declarations) = ["Book", "Shop"] := by
    have hmodels : (s.models.items.map Declaration.model).filterMap Declaration.model? =
        s.models.items := by
      rw [List.filterMap_map]
      exact List.filterMap_some
    have hitems : s.models.items.map Model.name = ["Book"] := s.models.names_eq.symm.trans hnames
    rw [declaredNames, List.filterMap_append, hmodels, List.map_append, hitems]
    rfl
  have hbook : IsCurrent (s.models.items.map .model ++ catalogueEdits.flatMap Edit.declarations)
      "Book" (((Model.ofName "Book").addField isbnField).addField shopsField) :=
    ⟨s.models.items.map .model ++ [.model (Model.ofName "Shop"),
        .field "Author" (bareField "born" (.scalar .date) [])],
      (Model.ofName "Book").addField isbnField, [.field "Book" shopsField],
      by rw [List.append_assoc]; rfl, rfl, by simp, rfl⟩
  obtain ⟨info, hinfo, hshops⟩ := h.resolve_ok "Book" "shops" _ shopsField hbook rfl
  refine ⟨s, hparse, h.modelNames_eq.trans hdeclared, (h.resolve_error_iff ..).mpr (.inl ⟨rfl, ?_⟩),
    (h.resolve_error_iff ..).mpr (.inr ⟨rfl, _, hbook, rfl⟩), info, hinfo,
    hshops.target_of_relation "Shop" rfl, hshops.collection_iff.mpr (.inl rfl),
    hshops.column_of_not_maps ?_⟩
  · simp [hdeclared]
  · rintro ⟨_, before, a, after, _, hattributes, -⟩
    exact absurd hattributes.symm (by simp [shopsField, bareField])

end SchemaFilter
