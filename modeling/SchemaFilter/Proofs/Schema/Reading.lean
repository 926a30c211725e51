import Mathlib.Data.List.Nodup
import SchemaFilter.Proofs.NameTable
import SchemaFilter.Proofs.Schema.Conversions

/-!
# What is read from parts

The reader takes parts for granted and looks for what it needs among them by name. On the parts of a
definition it finds exactly what is defined.

Main results:

* `AttributeDef.ReadAs.declares`, `FieldDef.ReadAs.declares`, `ModelDef.ReadAs.declares`: what is
  read says what is defined;
* `ModelDef.ReadAs.exists_model`: a definition is read if its integers have 64 bits and its fields
  have distinct names;
* `declareModels_declaring`: otherwise an integer or a name is reported.
-/

namespace SchemaFilter.SchemaText

open Grammar

/-! ## Lists of parts -/

section Lists

variable {ε α β γ : Type}

theorem mapM_eq_ok_iff {f : α → Except ε β} {as : List α} {bs : List β} :
    as.mapM f = .ok bs ↔ List.Forall₂ (fun a b => f a = .ok b) as bs := by
  induction as generalizing bs with
  | nil =>
    rw [List.mapM_nil, List.forall₂_nil_left_iff]
    exact ⟨fun h => (Except.ok.inj h).symm, fun h => h ▸ rfl⟩
  | cons a as ih =>
    rw [List.mapM_cons, List.forall₂_cons_left_iff]
    cases hf : f a with
    | error e => simp [bind, Except.bind]
    | ok b =>
      cases hfs : as.mapM f with
      | error e => simp [bind, Except.bind, ← ih, hfs]
      | ok cs =>
        simp [bind, Except.bind, pure, Except.pure, ← ih, hfs, eq_comm]

/-- What holds of single parts and what is read from them holds of lists. -/
theorem forall₂_of_mapM {f : β → Except ε γ} {r : α → β → Prop} {q : α → γ → Prop} {xs : List α}
    {ns : List β} {ys : List γ} (hr : List.Forall₂ r xs ns) (hf : ns.mapM f = .ok ys)
    (h : ∀ x n y, r x n → f n = .ok y → q x y) : List.Forall₂ q xs ys := by
  rw [mapM_eq_ok_iff] at hf
  induction hr generalizing ys with
  | nil =>
    cases hf
    exact .nil
  | cons hx _ ih =>
    cases hf with
    | cons hy hys => exact .cons (h _ _ _ hx hy) (ih hys)

theorem exists_mapM {f : β → Except ε γ} {r : α → β → Prop} {xs : List α} {ns : List β}
    (h : ∀ x ∈ xs, ∀ n, r x n → ∃ y, f n = .ok y) (hr : List.Forall₂ r xs ns) :
    ∃ ys, ns.mapM f = .ok ys := by
  simp only [mapM_eq_ok_iff]
  induction hr with
  | nil => exact ⟨[], .nil⟩
  | cons hx _ ih =>
    rw [List.forall_mem_cons] at h
    obtain ⟨y, hy⟩ := h.1 _ hx
    obtain ⟨ys, hys⟩ := ih h.2
    exact ⟨y :: ys, .cons hy hys⟩

end Lists

variable {n i : Part} {s : Symbol} {span span' : Span} {text text' : List Char}

theorem IsToken.string_eq {w : List Char} (h : IsToken s w n) : n.string = String.ofList w := by
  rw [Node.string, h.text]

/-! ## Arguments and attributes -/

theorem ArgumentDef.ReadAs.readArgument_eq_ok_iff {a : ArgumentDef} {v : AttributeValue}
    (h : a.ReadAs n) : readArgument n = .ok v ↔ a.value? = some v := by
  have hstring := h.string_eq
  obtain ⟨hsymbol, htext⟩ := h
  cases a with
  | string content =>
    simp [readArgument, hsymbol, htext, symbol, value?, token, Token.text]
  | number isNegative digits =>
    have hvalue : integerValue n.text = writtenInteger isNegative digits := by
      rw [htext, token, integerValue_number]
    simp only [readArgument, hsymbol, symbol, value?_number, hvalue]
    cases int64OfInt? _ <;> simp
  | word name =>
    by_cases htrue : name = trueWord
    · have hsymbol' : n.symbol = .booleanLiteral := by simp [hsymbol, symbol, htrue]
      have hvalue : (n.string == "true") = true := by rw [hstring, htrue]; rfl
      simp [readArgument, hsymbol', value?, htrue, hvalue]
    · by_cases hfalse : name = falseWord
      · have hsymbol' : n.symbol = .booleanLiteral := by simp [hsymbol, symbol, hfalse]
        have hvalue : (n.string == "true") = false := by rw [hstring, hfalse]; rfl
        have hne : falseWord ≠ trueWord := by decide
        simp [readArgument, hsymbol', value?, hfalse, hne, hvalue]
      · have hsymbol' : n.symbol = .identifier := by simp [hsymbol, symbol, htrue, hfalse]
        simp [readArgument, hsymbol', value?, htrue, hfalse, hstring, token, Token.text]

theorem readAttribute_bare (hi : i.symbol = .identifier) :
    readAttribute ⟨s, span, text, [i]⟩ = .ok ⟨⟨i.string, i.span⟩, [], span⟩ := by
  simp [readAttribute, identOf, hi, pure, Except.pure, bind, Except.bind]

theorem readAttribute_applied {ns : List Part} (hi : i.symbol = .identifier) :
    readAttribute ⟨s, span, text, [i, ⟨.arguments, span', text', ns⟩]⟩ =
      (ns.mapM readArgument).map fun args => ⟨⟨i.string, i.span⟩, args, span⟩ := by
  simp [readAttribute, identOf, hi, pure, Except.pure, bind, Except.bind, Except.map]
  cases ns.mapM readArgument <;> simp

theorem AttributeDef.ReadAs.declares {d : AttributeDef} {a : Attribute} (h : d.ReadAs s n)
    (hread : readAttribute n = .ok a) : d.Declares a := by
  cases h with
  | bare hname =>
    rw [readAttribute_bare hname.symbol] at hread
    obtain rfl := Except.ok.inj hread
    exact ⟨hname.string_eq, .nil⟩
  | @applied name as _ _ _ _ i ns hname hargs =>
    rw [readAttribute_applied hname.symbol] at hread
    cases hns : ns.mapM readArgument with
    | error e => simp [hns, Except.map] at hread
    | ok args =>
      simp only [hns, Except.map, Except.ok.injEq] at hread
      subst hread
      have hvalues : List.Forall₂ (fun b v => b.value? = some v) as args :=
        forall₂_of_mapM hargs hns fun _ _ _ h hread => h.readArgument_eq_ok_iff.mp hread
      exact ⟨hname.string_eq, hvalues⟩

theorem AttributeDef.ReadAs.exists_attribute {d : AttributeDef} (h : d.ReadAs s n)
    (hfits : ∀ a ∈ d.argumentList, a.value?.isSome = true) : ∃ a, readAttribute n = .ok a := by
  cases h with
  | bare hname => exact ⟨_, readAttribute_bare hname.symbol⟩
  | @applied name as _ _ _ _ i ns hname hargs =>
    obtain ⟨args, hns⟩ : ∃ args, ns.mapM readArgument = .ok args := by
      refine exists_mapM (fun a ha n hn => ?_) hargs
      obtain ⟨v, hv⟩ := Option.isSome_iff_exists.mp (hfits a ha)
      exact ⟨v, hn.readArgument_eq_ok_iff.mpr hv⟩
    exact ⟨_, by rw [readAttribute_applied hname.symbol, hns]; rfl⟩

/-! ## Documentation and types -/

section Docs

variable {ls : List LineText} {docs ps : List Part}

theorem DocsReadAs.find?_append (h : DocsReadAs ls docs) (hs : s ≠ .documentation) :
    (docs ++ ps).find? (·.symbol == s) = ps.find? (·.symbol == s) := by
  rw [List.find?_append, List.find?_eq_none.mpr, Option.none_or]
  intro n hn
  simp [h.symbol n hn, hs.symm]

theorem DocsReadAs.filter_append (h : DocsReadAs ls docs) (hs : s ≠ .documentation) :
    (docs ++ ps).filter (·.symbol == s) = ps.filter (·.symbol == s) := by
  rw [List.filter_append, List.filter_eq_nil_iff.mpr, List.nil_append]
  intro n hn
  simp [h.symbol n hn, hs.symm]

theorem documentationOf_append (hps : ∀ p ∈ ps, p.symbol ≠ .documentation) :
    documentationOf (docs ++ ps) = documentationOf docs := by
  have hnone : ps.find? (·.symbol == .documentation) = none :=
    List.find?_eq_none.mpr (by simpa using hps)
  rw [documentationOf, List.find?_append, hnone, Option.or_none, documentationOf]

theorem DocsReadAs.documents (h : DocsReadAs ls docs) :
    Documents ls ((documentationOf docs).map (·.text)) := by
  cases h with
  | none => exact .none
  | @some l ls span text ns hlines =>
    have hcontents : List.Forall₂ SaysLine (l :: ls)
        (ns.map fun n => trimBlank (dropSlashes n.text)) := by
      refine List.forall₂_map_right_iff.mpr (hlines.imp fun l n hn => ?_)
      rw [saysLine_iff, hn.text]
      rfl
    have htexts : ns.map docLineText =
        (ns.map fun n => trimBlank (dropSlashes n.text)).map String.ofList := by
      rw [List.map_map]
      rfl
    show Documents _ (Option.some ("\n".intercalate (ns.map docLineText)))
    rw [htexts]
    exact .some hcontents

end Docs

theorem TypeReadAs.readFieldType_eq {name : Name} {isList isOptional : Bool}
    (h : TypeReadAs name isList isOptional n) :
    readFieldType n = (.ofName (String.ofList name.val), .ofMarks isList isOptional) := by
  cases h with
  | @mk span text t marks hname hmarks =>
    have hmarked : ∀ s, (t :: marks).any (·.symbol == s) =
        (t.symbol :: marks.map (·.symbol)).any (· == s) := fun s => by
      simp [List.any_map, Function.comp_def]
    simp only [readFieldType, List.find?_cons, hname.symbol, hmarked, hmarks]
    simp only [beq_self_eq_true, Option.map_some, Option.getD_some, hname.string_eq]
    cases isList <;> cases isOptional <;> rfl

/-! ## Fields -/

theorem readField_eq {ls : List LineText} {docs as : List Part} {t : Part}
    (hdocs : DocsReadAs ls docs) (hi : i.symbol = .identifier) (ht : t.symbol = .fieldType)
    (has : ∀ a ∈ as, a.symbol = .fieldAttribute) :
    readField ⟨.field, span, text, docs ++ i :: t :: as⟩ =
      (as.mapM readAttribute).map fun xs =>
        ⟨⟨i.string, i.span⟩, (readFieldType t).1, (readFieldType t).2, xs, documentationOf docs,
          span⟩ := by
  have hfilter : as.filter (·.symbol == .fieldAttribute) = as :=
    List.filter_eq_self.mpr (by simpa using has)
  have hdoc : documentationOf (docs ++ i :: t :: as) = documentationOf docs := by
    refine documentationOf_append ?_
    simp only [List.forall_mem_cons, hi, ht]
    exact ⟨by decide, by decide, fun a ha => by simp [has a ha]⟩
  simp [readField, readAttributes, identOf, hdocs.find?_append, hdocs.filter_append, hi, ht,
    hfilter, hdoc]
  cases as.mapM readAttribute <;> rfl

theorem TypeReadAs.symbol {name : Name} {isList isOptional : Bool}
    (h : TypeReadAs name isList isOptional n) : n.symbol = .fieldType := by
  cases h
  rfl

theorem forall_symbol_of_forall₂ {as : List AttributeDef} {ns : List Part}
    (h : List.Forall₂ (AttributeDef.ReadAs s) as ns) : ∀ n ∈ ns, n.symbol = s := by
  induction h with
  | nil => simp
  | cons ha _ ih => simpa [ha.symbol] using ih

theorem FieldDef.ReadAs.declares {d : FieldDef} {f : Field} (h : d.ReadAs n)
    (hread : readField n = .ok f) : d.Declares f := by
  cases h with
  | @mk _ _ docs i t as hdocs hname htype hattributes =>
    have hsymbols := forall_symbol_of_forall₂ hattributes
    rw [readField_eq hdocs hname.symbol htype.symbol hsymbols] at hread
    cases has : as.mapM readAttribute with
    | error e => simp [has, Except.map] at hread
    | ok xs =>
      simp only [has, Except.map, htype.readFieldType_eq, Except.ok.injEq] at hread
      subst hread
      exact {
        name := hname.string_eq
        type := typeMeans_iff.mpr rfl
        isList := Modifier.isList_ofMarks ..
        isOptional := Modifier.isOptional_ofMarks ..
        attributes := forall₂_of_mapM hattributes has fun _ _ _ h hread => h.declares hread
        documentation := hdocs.documents }

theorem FieldDef.ReadAs.exists_field {d : FieldDef} (h : d.ReadAs n)
    (hfits : ∀ a ∈ d.attributes, ∀ b ∈ a.argumentList, b.value?.isSome = true) :
    ∃ f, readField n = .ok f := by
  cases h with
  | @mk _ _ docs i t as hdocs hname htype hattributes =>
    obtain ⟨xs, has⟩ := exists_mapM (fun a ha n hn => hn.exists_attribute (hfits a ha)) hattributes
    exact ⟨_, by rw [readField_eq hdocs hname.symbol htype.symbol
      (forall_symbol_of_forall₂ hattributes), has]; rfl⟩

/-- The next of some items is new to a table, and the others go on from there. -/
theorem nodup_append_cons_iff {α : Type} [Named α] {t : NameTable α} {a : α} {as : List α}
    (h : Named.name a ∉ t.names) :
    ((t.items ++ a :: as).map Named.name).Nodup ↔
      (((t.insert a).items ++ as).map Named.name).Nodup := by
  rw [NameTable.items_insert_of_notMem h, List.append_assoc, List.singleton_append]

theorem not_nodup_append_cons {α : Type} [Named α] {t : NameTable α} {a : α} {as : List α}
    (h : Named.name a ∈ t.names) : ¬((t.items ++ a :: as).map Named.name).Nodup := by
  rw [NameTable.names_eq] at h
  rw [List.map_append, List.map_cons]
  intro hnodup
  exact (List.nodup_append.mp hnodup).2.2 _ h _ List.mem_cons_self rfl

/-- Fields are declared in order if no two of them share a name. -/
theorem declareFields_eq_ok_iff {m m' : Model} {fs : List Field} :
    declareFields m fs = .ok m' ↔
      ((m.fields.items ++ fs).map Named.name).Nodup ∧
        m'.fields.items = m.fields.items ++ fs ∧ m' = { m with fields := m'.fields } := by
  induction fs generalizing m with
  | nil =>
    rw [declareFields, List.append_nil]
    constructor
    · intro h
      obtain rfl := Except.ok.inj h
      exact ⟨m.fields.nodup, rfl, rfl⟩
    · rintro ⟨_, hitems, hm⟩
      rw [hm, NameTable.eq_of_items_eq hitems]
  | cons f fs ih =>
    rw [declareFields]
    split
    · next hmem =>
      have hnot : ¬((m.fields.items ++ f :: fs).map Named.name).Nodup :=
        not_nodup_append_cons ((m.fields.contains_iff f.name).mp hmem)
      simp only [hnot, false_and, reduceCtorEq]
    · next hmem =>
      have hnew : f.name ∉ m.fields.names := fun h => hmem ((m.fields.contains_iff f.name).mpr h)
      rw [ih, nodup_append_cons_iff hnew, Model.addField, NameTable.items_insert_of_notMem hnew,
        List.append_assoc, List.singleton_append]

theorem exists_declareFields {m : Model} {fs : List Field}
    (h : ((m.fields.items ++ fs).map Named.name).Nodup) : ∃ m', declareFields m fs = .ok m' :=
  ⟨{ m with fields := m.fields.extend fs },
    declareFields_eq_ok_iff.mpr ⟨h, NameTable.items_extend_of_nodup h, rfl⟩⟩

/-! ## Models -/

theorem readModel_eq {ls : List LineText} {docs is : List Part} {k : Part}
    (hdocs : DocsReadAs ls docs) (hk : k.symbol = .modelKeyword) (hi : i.symbol = .identifier)
    (his : ∀ n ∈ is, n.symbol ≠ .documentation) :
    readModel ⟨.model, span, text, docs ++ k :: i :: is⟩ = (is.mapM readModelItem).bind fun os =>
      declareFields ⟨⟨i.string, i.span⟩, .empty, (os.filterMap id).filterMap (·.modelAttribute?),
        documentationOf docs, span⟩ ((os.filterMap id).filterMap (·.field?)) := by
  have hdoc : documentationOf (docs ++ k :: i :: is) = documentationOf docs := by
    refine documentationOf_append ?_
    simp only [List.forall_mem_cons, hk, hi]
    exact ⟨by decide, by decide, his⟩
  have hmapM : (docs ++ k :: i :: is).mapM readModelItem =
      (is.mapM readModelItem).map fun os => docs.map (fun _ => none) ++ none :: none :: os := by
    cases hdocs <;> simp [readModelItem, hk, hi] <;> cases is.mapM readModelItem <;> rfl
  have hident : identOf (docs ++ k :: i :: is) = ⟨i.string, i.span⟩ := by
    simp [identOf, hdocs.find?_append, hk, hi]
  simp only [readModel, hmapM, hdoc, hident]
  cases is.mapM readModelItem with
  | error e => rfl
  | ok os => cases hdocs <;> rfl

/-- The item says what is defined. -/
def ItemDef.Declares : ItemDef → Option ModelItem → Prop
  | field d, some (.field f) => d.Declares f
  | modelAttribute d, some (.modelAttribute a) => d.Declares a
  | _, _ => False

theorem ItemDef.ReadAs.declares {d : ItemDef} {o : Option ModelItem} (h : d.ReadAs n)
    (hread : readModelItem n = .ok o) : d.Declares o := by
  cases d with
  | field d =>
    rw [readModelItem, FieldDef.ReadAs.symbol h] at hread
    cases hf : readField n with
    | error e => simp [hf, Except.map] at hread
    | ok f =>
      simp only [hf, Except.map, Except.ok.injEq] at hread
      subst hread
      exact FieldDef.ReadAs.declares h hf
  | modelAttribute d =>
    rw [readModelItem, AttributeDef.ReadAs.symbol h] at hread
    cases ha : readAttribute n with
    | error e => simp [ha, Except.map] at hread
    | ok a =>
      simp only [ha, Except.map, Except.ok.injEq] at hread
      subst hread
      exact AttributeDef.ReadAs.declares h ha

theorem forall₂_fields {ds : List ItemDef} {os : List (Option ModelItem)}
    (h : List.Forall₂ ItemDef.Declares ds os) :
    List.Forall₂ FieldDef.Declares (ds.filterMap ItemDef.field?)
      ((os.filterMap id).filterMap (·.field?)) := by
  induction h with
  | nil => exact .nil
  | @cons d o ds os hd _ ih =>
    match d, o, hd with
    | .field _, some (.field _), hd => exact .cons hd ih
    | .modelAttribute _, some (.modelAttribute _), _ => exact ih

theorem forall₂_modelAttributes {ds : List ItemDef} {os : List (Option ModelItem)}
    (h : List.Forall₂ ItemDef.Declares ds os) :
    List.Forall₂ AttributeDef.Declares (ds.filterMap ItemDef.modelAttribute?)
      ((os.filterMap id).filterMap (·.modelAttribute?)) := by
  induction h with
  | nil => exact .nil
  | @cons d o ds os hd _ ih =>
    match d, o, hd with
    | .field _, some (.field _), _ => exact ih
    | .modelAttribute _, some (.modelAttribute _), hd => exact .cons hd ih

theorem forall_symbol_of_items {ds : List ItemDef} {ns : List Part}
    (h : List.Forall₂ ItemDef.ReadAs ds ns) : ∀ n ∈ ns, n.symbol ≠ .documentation := by
  induction h with
  | nil => simp
  | @cons d n ds ns hd _ ih =>
    refine List.forall_mem_cons.mpr ⟨?_, ih⟩
    cases d with
    | field d => simp [FieldDef.ReadAs.symbol hd]
    | modelAttribute d => simp [AttributeDef.ReadAs.symbol hd]

theorem ModelDef.ReadAs.declares {d : ModelDef} {m : Model} (h : d.ReadAs n)
    (hread : readModel n = .ok m) : d.Declares m := by
  cases h with
  | @mk _ _ docs k i is hdocs hkeyword hname hitems =>
    rw [readModel_eq hdocs hkeyword hname.symbol (forall_symbol_of_items hitems)] at hread
    cases hos : is.mapM readModelItem with
    | error e => simp [hos, Except.bind] at hread
    | ok os =>
      simp only [hos, Except.bind] at hread
      obtain ⟨hnodup, hfields, hm⟩ := declareFields_eq_ok_iff.mp hread
      have hdeclares : List.Forall₂ ItemDef.Declares d.items os :=
        forall₂_of_mapM hitems hos fun _ _ _ h hread => h.declares hread
      rw [hm]
      exact {
        name := hname.string_eq
        fields := by
          rw [hfields]
          exact forall₂_fields hdeclares
        attributes := forall₂_modelAttributes hdeclares
        documentation := hdocs.documents }

/-- Names that are distinct in the definitions are distinct in what they declare, and vice versa. -/
theorem nodup_names_iff {α β : Type} [Named β] {q : α → β → Prop} {nameOf : α → Name}
    (h : ∀ {x y}, q x y → Named.name y = String.ofList (nameOf x).val) {xs : List α} {ys : List β}
    (hq : List.Forall₂ q xs ys) : (ys.map Named.name).Nodup ↔ (xs.map nameOf).Nodup := by
  have hnames : ys.map Named.name =
      (xs.map nameOf).map fun name => String.ofList name.val := by
    induction hq with
    | nil => rfl
    | cons hx _ ih => rw [List.map_cons, List.map_cons, List.map_cons, ih, h hx]
  rw [hnames, List.nodup_map_iff]
  intro n n' heq
  exact Subtype.ext (String.ofList_injective heq)

theorem ItemDef.ReadAs.exists_item {d : ItemDef} (h : d.ReadAs n)
    (hfits : ∀ a ∈ d.attributes, ∀ b ∈ a.argumentList, b.value?.isSome = true) :
    ∃ o, readModelItem n = .ok o := by
  cases d with
  | field d =>
    obtain ⟨f, hf⟩ := FieldDef.ReadAs.exists_field h hfits
    exact ⟨some (.field f), by rw [readModelItem, FieldDef.ReadAs.symbol h]; simp [hf, Except.map]⟩
  | modelAttribute d =>
    obtain ⟨a, ha⟩ := AttributeDef.ReadAs.exists_attribute h (hfits d (List.mem_singleton_self d))
    exact ⟨some (.modelAttribute a), by
      rw [readModelItem, AttributeDef.ReadAs.symbol h]; simp [ha, Except.map]⟩

theorem ModelDef.ReadAs.exists_model {d : ModelDef} (h : d.ReadAs n)
    (hfields : (d.fields.map (·.name)).Nodup)
    (hfits : ∀ a ∈ d.allArguments, a.value?.isSome = true) : ∃ m, readModel n = .ok m := by
  cases h with
  | @mk span _ docs k i is hdocs hkeyword hname hitems =>
    rw [readModel_eq hdocs hkeyword hname.symbol (forall_symbol_of_items hitems)]
    obtain ⟨os, hos⟩ : ∃ os, is.mapM readModelItem = .ok os := by
      refine exists_mapM (fun x hx n hn => ItemDef.ReadAs.exists_item hn fun a ha b hb => ?_) hitems
      exact hfits b (List.mem_flatMap.mpr ⟨a, List.mem_flatMap.mpr ⟨x, hx, ha⟩, hb⟩)
    have hdeclares : List.Forall₂ ItemDef.Declares d.items os :=
      forall₂_of_mapM hitems hos fun _ _ _ h hread => h.declares hread
    have hnodup := (nodup_names_iff FieldDef.Declares.name (forall₂_fields hdeclares)).mpr hfields
    simp only [hos, Except.bind]
    exact exists_declareFields hnodup

theorem exists_mem_of_forall₂ {α β : Type} {r : α → β → Prop} {xs : List α} {ys : List β}
    (h : List.Forall₂ r xs ys) {x : α} (hx : x ∈ xs) : ∃ y ∈ ys, r x y := by
  induction h with
  | nil => exact absurd hx List.not_mem_nil
  | cons head _ ih =>
    rcases List.mem_cons.mp hx with rfl | hx
    · exact ⟨_, List.mem_cons_self, head⟩
    · obtain ⟨y, hy, hr⟩ := ih hx
      exact ⟨y, List.mem_cons_of_mem _ hy, hr⟩

theorem forall_of_forall₂ {α β : Type} {q : α → β → Prop} {p : α → Prop} {xs : List α}
    {ys : List β} (h : ∀ x y, q x y → p x) (hq : List.Forall₂ q xs ys) : ∀ x ∈ xs, p x := by
  induction hq with
  | nil => simp
  | cons hx _ ih => exact List.forall_mem_cons.mpr ⟨h _ _ hx, ih⟩

theorem AttributeDef.Declares.isSome_value? {d : AttributeDef} {a : Attribute} (h : d.Declares a) :
    ∀ b ∈ d.argumentList, b.value?.isSome = true :=
  forall_of_forall₂ (fun b v hv => by rw [hv, Option.isSome_some]) h.args

theorem ModelDef.Declares.nodup_fields {d : ModelDef} {m : Model} (h : d.Declares m) :
    (d.fields.map (·.name)).Nodup :=
  (nodup_names_iff FieldDef.Declares.name h.fields).mp m.fields.nodup

theorem ModelDef.Declares.isSome_value? {d : ModelDef} {m : Model} (h : d.Declares m) :
    ∀ b ∈ d.allArguments, b.value?.isSome = true := by
  have hattributes : ∀ a ∈ d.attributes, ∀ b ∈ a.argumentList, b.value?.isSome = true :=
    forall_of_forall₂ (fun _ _ h => h.isSome_value?) h.attributes
  have hfields : ∀ f ∈ d.fields, ∀ a ∈ f.attributes, ∀ b ∈ a.argumentList,
      b.value?.isSome = true :=
    forall_of_forall₂ (fun _ _ h => forall_of_forall₂ (fun _ _ h => h.isSome_value?) h.attributes)
      h.fields
  intro b hb
  obtain ⟨a, ha, hb⟩ := List.mem_flatMap.mp hb
  obtain ⟨i, hi, ha⟩ := List.mem_flatMap.mp ha
  cases i with
  | field f => exact hfields f (List.mem_filterMap.mpr ⟨_, hi, rfl⟩) a ha b hb
  | modelAttribute a' =>
    obtain rfl := List.mem_singleton.mp ha
    exact hattributes a (List.mem_filterMap.mpr ⟨_, hi, rfl⟩) b hb

/-- Models are declared in order if all of them can be read and no two share a name. -/
theorem declareModels_eq_ok_iff {s s' : Schema} {ns : List Part} :
    declareModels s ns = .ok s' ↔ ∃ ms, ns.mapM readModel = .ok ms ∧
      ((s.models.items ++ ms).map Named.name).Nodup ∧ s'.models.items = s.models.items ++ ms := by
  simp only [mapM_eq_ok_iff]
  induction ns generalizing s with
  | nil =>
    rw [declareModels]
    constructor
    · intro h
      obtain rfl := Except.ok.inj h
      exact ⟨[], .nil, by simpa using s.models.nodup, by simp⟩
    · rintro ⟨ms, hms, _, hitems⟩
      cases hms
      rw [List.append_nil] at hitems
      rw [Schema.eq_of_items_eq hitems]
  | cons n ns ih =>
    simp only [declareModels, List.forall₂_cons_left_iff]
    cases hn : readModel n with
    | error e => simp [bind, Except.bind]
    | ok m =>
      simp only [bind, Except.bind, Except.ok.injEq]
      split
      · next hmem =>
        simp only [reduceCtorEq, false_iff]
        rintro ⟨_, ⟨m', ms, rfl, _, rfl⟩, hnodup, _⟩
        exact not_nodup_append_cons ((s.models.contains_iff m.name).mp hmem) hnodup
      · next hmem =>
        have hnew : m.name ∉ s.models.names := fun h => hmem ((s.models.contains_iff m.name).mpr h)
        have hitems : (s.add m).models.items = s.models.items ++ [m] :=
          NameTable.items_insert_of_notMem hnew
        rw [ih]
        constructor
        · rintro ⟨ms, hms, hnodup, hs'⟩
          rw [hitems, List.append_assoc, List.singleton_append] at hnodup hs'
          exact ⟨m :: ms, ⟨m, ms, rfl, hms, rfl⟩, hnodup, hs'⟩
        · rintro ⟨_, ⟨_, ms, rfl, hms, rfl⟩, hnodup, hs'⟩
          refine ⟨ms, hms, ?_⟩
          rw [hitems, List.append_assoc, List.singleton_append]
          exact ⟨hnodup, hs'⟩

/-! ## Errors -/

section Declaring

variable {α β : Type} {r : Except SchemaError α}

/-- The errors of texts that the grammar accepts. -/
inductive DeclarationError : SchemaError → Prop
  | integerOutOfRange (offset length : Nat) :
      DeclarationError (.malformedText .integerOutOfRange offset length)
  | duplicate (kind : DeclarationKind) (name : String) : DeclarationError (.duplicate kind name)

/-- If this fails, then for a reason that the grammar does not see. -/
def Declaring (r : Except SchemaError α) : Prop := ∀ e, r = .error e → DeclarationError e

theorem declaring_ok (a : α) : Declaring (.ok a : Except SchemaError α) := by
  intro e h
  cases h

theorem declaring_error {e : SchemaError} (h : DeclarationError e) :
    Declaring (.error e : Except SchemaError α) := by
  rintro _ ⟨⟩
  exact h

theorem Declaring.bind {f : α → Except SchemaError β} (hr : Declaring r)
    (hf : ∀ a, Declaring (f a)) : Declaring (r >>= f) := by
  cases r with
  | error e => exact declaring_error (hr e rfl)
  | ok a => exact hf a

theorem Declaring.map (f : α → β) (hr : Declaring r) : Declaring (r.map f) := by
  cases r with
  | error e => exact declaring_error (hr e rfl)
  | ok a => exact declaring_ok (f a)

theorem Declaring.mapM {f : β → Except SchemaError α} (hf : ∀ b, Declaring (f b)) (bs : List β) :
    Declaring (bs.mapM f) := by
  induction bs with
  | nil => exact declaring_ok []
  | cons b bs ih =>
    rw [List.mapM_cons]
    exact (hf b).bind fun a => ih.bind fun as => declaring_ok (a :: as)

end Declaring

theorem readArgument_declaring (n : Part) : Declaring (readArgument n) := by
  unfold readArgument
  split
  · exact declaring_ok _
  · split
    · exact declaring_ok _
    · exact declaring_error (.integerOutOfRange _ _)
  · exact declaring_ok _
  · exact declaring_ok _

theorem readAttribute_declaring (n : Part) : Declaring (readAttribute n) :=
  (Declaring.mapM (fun _ => .mapM readArgument_declaring _) _).bind fun _ => declaring_ok _

theorem readField_declaring (n : Part) : Declaring (readField n) :=
  (Declaring.mapM readAttribute_declaring _).bind fun _ => declaring_ok _

theorem readModelItem_declaring (n : Part) : Declaring (readModelItem n) := by
  unfold readModelItem
  split
  · exact (readField_declaring n).map _
  · exact (readAttribute_declaring n).map _
  · exact declaring_ok none

theorem declareFields_declaring (m : Model) (fs : List Field) :
    Declaring (declareFields m fs) := by
  induction fs generalizing m with
  | nil => exact declaring_ok m
  | cons f fs ih =>
    rw [declareFields]
    split
    · exact declaring_error (.duplicate _ _)
    · exact ih _

theorem readModel_declaring (n : Part) : Declaring (readModel n) :=
  (Declaring.mapM readModelItem_declaring _).bind fun _ => declareFields_declaring _ _

/-- Of parts that the grammar has read, only integers and names are refused. -/
theorem declareModels_declaring (s : Schema) (ns : List Part) : Declaring (declareModels s ns) := by
  induction ns generalizing s with
  | nil => exact declaring_ok s
  | cons n ns ih =>
    rw [declareModels]
    refine (readModel_declaring n).bind fun m => ?_
    split
    · exact declaring_error (.duplicate _ _)
    · exact ih _

end SchemaFilter.SchemaText
