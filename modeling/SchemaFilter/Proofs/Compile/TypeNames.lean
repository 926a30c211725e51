import SchemaFilter.Proofs.Compile.Plan
import SchemaFilter.Proofs.Schema.Parsing
import SchemaFilter.Proofs.Schema.Validation

/-!
# What type names mean

A type name in a schema text is a scalar type's or a model's, and it is read before the models of
the text are known: the names of scalar types, second names included, always mean scalars. In a
valid schema every other type name is the name of a declared model, and the field is a relation to
it. A model that is declared under the name of a scalar type cannot be the target of a relation.

Results:

* `exists_declared_field`: a field that is written down in a text is found in its schema;
* `type_name_leads`: what a lookup says about it, and which hops lead over it.
-/

namespace SchemaFilter

open SchemaText

variable {α : Type} {text : String} {s : Schema} {ds : List ModelDef}

/-! ## Declared fields -/

/-- A field that is written down in a text is found in its schema. -/
theorem exists_declared_field (hds : IsLayout ds text) (hs : Schema.parse text = .ok s)
    {d : ModelDef} (hd : d ∈ ds) {f : FieldDef} (hf : f ∈ d.fields) :
    ∃ m g, s.model? (String.ofList d.name.val) = some m ∧
      m.field? (String.ofList f.name.val) = some g ∧ f.Declares g := by
  obtain ⟨m, hm, hdm⟩ := exists_mem_of_forall₂ (declares_of_layout hds hs) hd
  obtain ⟨g, hg, hfg⟩ := exists_mem_of_forall₂ hdm.fields hf
  have hmodel : s.model? (String.ofList d.name.val) = some m :=
    NameTable.find?_eq_some_iff.mpr ⟨hm, hdm.name⟩
  have hfield : m.field? (String.ofList f.name.val) = some g :=
    NameTable.find?_eq_some_iff.mpr ⟨hg, hfg.name⟩
  exact ⟨m, g, hmodel, hfield, hfg⟩

/-! ## Type names -/

theorem FieldType.ofName_of_eq_none {name : String} (h : ScalarType.ofName? name = none) :
    ofName name = .relation name := by
  rw [ofName, h]

theorem FieldType.ofName_of_eq_some {name : String} {type : ScalarType}
    (h : ScalarType.ofName? name = some type) : ofName name = .scalar type := by
  rw [ofName, h]

/-- **What a type name leads to.** In the valid schema of a text, every field that is written down
    there is found. If its written type name is no scalar type's, then a model of this name is
    declared, the field is a relation to it, and every hop over the field that has the cardinality
    of its marks can be walked. A name that is a scalar type's means that type, whether or not a
    model is declared under it. -/
theorem type_name_leads (hs : Schema.parseValid text = .ok s) (hds : IsLayout ds text)
    {d : ModelDef} (hd : d ∈ ds) {f : FieldDef} (hf : f ∈ d.fields) :
    ∃ info, s.resolve (String.ofList d.name.val) (String.ofList f.name.val) = .ok info ∧
      info.cardinality = .ofBool f.isList ∧
      (ScalarType.ofName? (String.ofList f.type.val) = none →
        s.declares (String.ofList f.type.val) ∧
          info.target? = some (String.ofList f.type.val) ∧
          ∀ hop : RelationHop α, hop.name = String.ofList f.name.val →
            hop.cardinality = .ofBool f.isList →
            hop.check s (String.ofList d.name.val) = .ok info) ∧
      ∀ type, ScalarType.ofName? (String.ofList f.type.val) = some type →
        info.scalar? = some type ∧ info.target? = none := by
  obtain ⟨hparse, hvalid⟩ := Schema.parseValid_eq_ok_iff.mp hs
  obtain ⟨m, g, hm, hg, hfg⟩ := exists_declared_field hds hparse hd hf
  have hresolve : s.resolve (String.ofList d.name.val) (String.ofList f.name.val) =
      .ok (Schema.fieldInfo m g) := Schema.resolve_eq_ok_iff.mpr ⟨m, g, hm, hg, rfl⟩
  have hcard : (Schema.fieldInfo m g).cardinality = .ofBool f.isList := by
    rw [← hfg.isList]
    rfl
  have htype : g.type = .ofName (String.ofList f.type.val) := typeMeans_iff.mp hfg.type
  refine ⟨_, hresolve, hcard, ?_, ?_⟩
  · intro hnone
    have htype : g.type = .relation (String.ofList f.type.val) := by
      rw [htype, FieldType.ofName_of_eq_none hnone]
    refine ⟨?_, ?_, ?_⟩
    · exact (hvalid m (NameTable.mem_of_find? hm)).targets_declared g
        (NameTable.mem_of_find? hg) _ htype
    · show g.type.target? = _
      rw [htype]
      rfl
    · intro hop hname hhop
      have hrelation : (Schema.fieldInfo m g).type.isRelation := by
        show g.type.isRelation
        rw [htype]
        rfl
      rw [RelationHop.check, hname, hresolve, hhop]
      simp [hrelation, hcard]
  · intro type hsome
    have htype : g.type = .scalar type := by rw [htype, FieldType.ofName_of_eq_some hsome]
    show g.type.scalar? = some type ∧ g.type.target? = none
    rw [htype]
    exact ⟨rfl, rfl⟩

/-! ## A calendar -/

/-- Events, with a day that is written as a date, and their places. Dates are a model, too. -/
def calendarText : String :=
  "model Date \x7b\n  day Int\n\x7d\n" ++
    "model Event \x7b\n  held Date\n  places Place[]\n\x7d\n" ++
    "model Place \x7b\n  name String\n\x7d"

/-- What the calendar says about a field of events, and whether dates are a model in it. -/
def calendarOutline (field : String) : Option (FieldInfo × Bool) :=
  (Schema.parseValid calendarText).toOption.bind fun s =>
    (s.resolve "Event" field).toOption.map fun info => (info, s.declares "Date")

theorem exists_of_calendarOutline {field : String} {info : FieldInfo} {declared : Bool}
    (h : calendarOutline field = some (info, declared)) :
    ∃ s ds d f, Schema.parseValid calendarText = .ok s ∧ IsLayout ds calendarText ∧ d ∈ ds ∧
      f ∈ ModelDef.fields d ∧ String.ofList d.name.val = "Event" ∧
      String.ofList f.name.val = field ∧ FieldType.ofName (String.ofList f.type.val) = info.type ∧
      s.resolve "Event" field = .ok info ∧ s.declares "Date" = declared := by
  obtain ⟨s, hs, h⟩ := Option.bind_eq_some_iff.mp h
  obtain ⟨info', hresolve, h⟩ := Option.map_eq_some_iff.mp h
  cases h
  have hvalid := eq_ok_of_toOption hs
  have hparse := (Schema.parseValid_eq_ok_iff.mp hvalid).1
  obtain ⟨ns, hns⟩ := exists_readsModels_of_parse hparse
  obtain ⟨ds, hds, _⟩ := hns.exists_layout
  obtain ⟨m, g, hm, hg, hinfo⟩ := Schema.resolve_eq_ok_iff.mp (eq_ok_of_toOption hresolve)
  obtain ⟨hmitem, hmname⟩ := NameTable.find?_eq_some_iff.mp hm
  obtain ⟨hgitem, hgname⟩ := NameTable.find?_eq_some_iff.mp hg
  -- the definitions behind the stored model and field
  obtain ⟨d, hd, hdm⟩ := exists_mem_of_forall₂ (declares_of_layout hds hparse).flip hmitem
  obtain ⟨f, hf, hfg⟩ := exists_mem_of_forall₂ (List.Forall₂.flip hdm.fields) hgitem
  exact ⟨s, ds, d, f, hvalid, hds, hd, hf, hdm.name.symm.trans hmname, hfg.name.symm.trans hgname,
    by rw [← typeMeans_iff.mp hfg.type, hinfo]; rfl, eq_ok_of_toOption hresolve, rfl⟩

theorem ScalarType.eq_of_ofName?_eq_date {name : String} (h : ofName? name = some .date) :
    name = "Date" := by
  unfold ofName? at h
  split at h <;> first | rfl | cases h

/-- A field can be declared with the name of a model and be no relation. -/
theorem exists_field_typed_by_model_without_target :
    ∃ s ds d f info, Schema.parseValid calendarText = .ok s ∧ IsLayout ds calendarText ∧ d ∈ ds ∧
      f ∈ ModelDef.fields d ∧ s.declares (String.ofList f.type.val) ∧
      s.resolve (String.ofList d.name.val) (String.ofList f.name.val) = .ok info ∧
      info.target? = none := by
  have houtline : calendarOutline "held" =
      some (⟨"Event", "held", "held", .scalar .date, .single, false⟩, true) := by decide +kernel
  obtain ⟨s, ds, d, f, hs, hds, hd, hf, hdname, hfname, htype, hresolve, hdate⟩ :=
    exists_of_calendarOutline houtline
  refine ⟨s, ds, d, f, _, hs, hds, hd, hf, ?_, by rw [hdname, hfname]; exact hresolve, rfl⟩
  rw [FieldType.ofName] at htype
  cases hname : ScalarType.ofName? (String.ofList f.type.val) with
  | none =>
    rw [hname] at htype
    cases htype
  | some type =>
    rw [hname] at htype
    cases htype
    rw [ScalarType.eq_of_ofName?_eq_date hname]
    exact hdate

/-- The places of an event are reached over a relation to many. -/
theorem type_name_leads_places :
    ∃ s info, Schema.parseValid calendarText = .ok s ∧ s.resolve "Event" "places" = .ok info ∧
      info.target? = some "Place" ∧
      (⟨"places", .collection, []⟩ : RelationHop Unit).check s "Event" = .ok info := by
  have houtline : calendarOutline "places" =
      some (⟨"Event", "places", "places", .relation "Place", .collection, false⟩, true) := by
    decide +kernel
  obtain ⟨s, ds, d, f, hs, hds, hd, hf, hdname, hfname, htype, hresolve, _⟩ :=
    exists_of_calendarOutline houtline
  obtain ⟨info, hinfo, hcard, hrelation, hscalar⟩ := type_name_leads (α := Unit) hs hds hd hf
  rw [hdname, hfname, hresolve] at hinfo
  cases hinfo
  cases hname : ScalarType.ofName? (String.ofList f.type.val) with
  | some type => cases (hscalar type hname).1
  | none =>
    obtain ⟨_, htarget, hhop⟩ := hrelation hname
    rw [hdname] at hhop
    exact ⟨s, _, hs, hresolve, rfl, hhop ⟨"places", .collection, []⟩ hfname.symm hcard⟩

end SchemaFilter
