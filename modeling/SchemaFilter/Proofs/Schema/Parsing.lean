import SchemaFilter.Proofs.Schema.Completeness
import SchemaFilter.Proofs.Schema.Reading
import SchemaFilter.Proofs.Schema.Soundness

/-!
# Parsing is the inverse of layout

The grammar and the tree reader together accept exactly the layouts of definitions that can be
declared together, and what they return says what is defined.

Main definitions and results:

* `ReadsModels`: the model parts of a whole text;
* `readsModels_of_layout`, `ReadsModels.exists_layout`: these are the parts of the definitions that
  the text is a layout of;
* `parse_reads_layouts`: which texts are parsed, and to which schemas.
-/

namespace SchemaFilter.SchemaText

open Grammar Grammar.Expr

variable {cs : List Char} {c d : Cursor} {ns : List Part}

/-- All of the text is read, as the given model parts. -/
def ReadsModels (cs : List Char) (ns : List Part) : Prop :=
  ∃ d, Rounds model skipBlank (.start cs) ns d ∧ (skipBlank d).rest = []

/-! ## The rule of the whole text -/

theorem model_eq_none_of_end (h : (skipBlank d).rest = []) :
    model.match? skipBlank (skipBlank d) = none := by
  rw [Option.eq_none_iff_forall_ne_some]
  rintro ⟨e, ms⟩ hmatch
  obtain ⟨w, hw, hlength⟩ := match?_passes forward_skipBlank hmatch
  have hrest := hw.length
  rw [h, List.length_nil] at hrest
  have hmodel : 0 < model.leastLength := by decide
  omega

theorem symbol_of_rounds (h : Rounds model skipBlank c ns d) : ∀ n ∈ ns, n.symbol = .model := by
  induction h with
  | none _ => simp
  | more first _ ih =>
    obtain ⟨ms, -, rfl⟩ := match?_phrase.mp first
    exact List.forall_mem_cons.mpr ⟨rfl, ih⟩

theorem exists_readsModels (h : schema.match? skipBlank (.start cs) = some (d, ns)) :
    ∃ ms, ReadsModels cs ms := by
  have hempty : text "" = word [] := rfl
  simp only [schema, Expr.sequence, hempty, match?_phrase, match?_seq, match?_word, match?_atEnd,
    Cursor.passes_nil] at h
  obtain ⟨_, ⟨_, _, _, ⟨rfl, -⟩, ⟨b, ms, _, hmodels, ⟨_, ⟨hend, -, -⟩, -⟩, -⟩, -⟩, -⟩ := h
  obtain ⟨-, rfl, rfl⟩ | ⟨b', ms', ns', first, others, -, rfl⟩ :=
    (match?_many forward_skipBlank (by decide)).mp hmodels
  · rw [skipBlank_skipBlank] at hend
    exact ⟨[], _, .none _, hend⟩
  · exact ⟨_, b, .more first others, hend⟩

theorem ReadsModels.exists_many (h : ReadsModels cs ns) :
    ∃ b, (many model).match? skipBlank (skipBlank (.start cs)) = some (b, ns) ∧
      (skipBlank b).rest = [] := by
  obtain ⟨d, hrounds, hend⟩ := h
  have hstop := model_eq_none_of_end hend
  cases hrounds with
  | none =>
    refine ⟨_, (match?_many forward_skipBlank (by decide)).mpr (.inl ⟨hstop, rfl, rfl⟩), ?_⟩
    rw [skipBlank, hend, skipFrom]
  | more first others =>
    exact ⟨d, (match?_many forward_skipBlank (by decide)).mpr
      (.inr ⟨_, _, _, first, others, hstop, rfl⟩), hend⟩

theorem ReadsModels.exists_match? (h : ReadsModels cs ns) :
    ∃ d n, schema.match? skipBlank (.start cs) = some (d, [n]) ∧
      n.children.filter (·.symbol == .model) = ns := by
  obtain ⟨b, hmany, hb⟩ := h.exists_many
  have hend : (phrase Symbol.endOfText atEnd).match? skipBlank (skipBlank b) =
      some (skipBlank b, [.between Symbol.endOfText (skipBlank b) (skipBlank b) []]) :=
    match?_phrase.mpr ⟨[], match?_atEnd.mpr ⟨hb, rfl, rfl⟩, rfl⟩
  have hempty : (text "").match? skipBlank (.start cs) = some (.start cs, []) :=
    match?_word.mpr ⟨.refl _, rfl⟩
  refine ⟨_, _, match?_phrase.mpr ⟨_, match?_seq.mpr ⟨_, _, _, hempty,
    match?_seq.mpr ⟨_, _, _, hmany, hend, rfl⟩, rfl⟩, rfl⟩, ?_⟩
  obtain ⟨d, hrounds, -⟩ := h
  have hfilter : ns.filter (·.symbol == .model) = ns :=
    List.filter_eq_self.mpr (by simpa using symbol_of_rounds hrounds)
  simp [Node.between, hfilter]

theorem parse_of_readsModels {text : String} (h : ReadsModels text.toList ns) :
    Schema.parse text = declareModels .empty ns := by
  obtain ⟨d, n, hmatch, hmodels⟩ := h.exists_match?
  unfold Schema.parse matchPart
  rw [hmatch]
  simp only [List.flatMap_singleton, hmodels]

theorem parse_of_not_readsModels {text : String} (h : ¬∃ ns, ReadsModels text.toList ns) :
    ∃ offset, Schema.parse text = .error (.malformedText .unexpected offset 0) := by
  cases hmatch : schema.match? skipBlank (.start text.toList) with
  | none =>
    unfold Schema.parse matchPart
    rw [hmatch]
    exact ⟨_, rfl⟩
  | some found => exact absurd (exists_readsModels hmatch) h

theorem exists_readsModels_of_parse {text : String} {s : Schema} (h : Schema.parse text = .ok s) :
    ∃ ns, ReadsModels text.toList ns := by
  by_contra hnone
  obtain ⟨offset, herror⟩ := parse_of_not_readsModels hnone
  rw [h] at herror
  cases herror

theorem ReadsModels.unique {ms : List Part} (h : ReadsModels cs ms) (h' : ReadsModels cs ns) :
    ms = ns := by
  obtain ⟨b, hb, -⟩ := h.exists_many
  obtain ⟨b', hb', -⟩ := h'.exists_many
  exact (Prod.mk.inj (Option.some.inj (hb.symm.trans hb'))).2

/-! ## Layouts -/

/-- The models of a layout are read, whatever tail comes after it. -/
theorem rounds_of_models {q : List Char → Prop} {ds : List ModelDef}
    (h : Laid q (ds.flatMap ModelDef.tokens) cs) :
    ∃ (d : Cursor) (ns : List Part), (∀ x, q x →
        Rounds model skipBlank ((Cursor.start cs).followedBy x) ns (d.followedBy x)) ∧
      List.Forall₂ ModelDef.ReadAs ds ns ∧ Layout [] d.rest := by
  have hmodels : Laid q (ds.flatMap ModelDef.tokens ++ []) (Cursor.start cs).rest := by
    rwa [List.append_nil]
  obtain ⟨d, ns, hrounds, hreads, hd⟩ :=
    rounds_of_layout ModelDef.tokens_ne_nil (fun m _ => reads_model m) hmodels
  exact ⟨d, ns, hrounds, hreads, hd.layout⟩

/-- Without a tail, too. -/
theorem rounds_of_followedBy {q : List Char → Prop} (hq : q [])
    (h : ∀ x, q x → Rounds model skipBlank (c.followedBy x) ns (d.followedBy x)) :
    Rounds model skipBlank c ns d := by
  have hrounds := h [] hq
  rwa [Cursor.followedBy_nil, Cursor.followedBy_nil] at hrounds

theorem readsModels_of_layout {ds : List ModelDef} (h : Layout (ds.flatMap ModelDef.tokens) cs) :
    ∃ ns, ReadsModels cs ns ∧ List.Forall₂ ModelDef.ReadAs ds ns := by
  obtain ⟨d, ns, hrounds, hreads, hd⟩ := rounds_of_models h.laid_lines
  exact ⟨ns, ⟨d, rounds_of_followedBy startsLine_nil hrounds, hd.skipBlank_eq_nil⟩, hreads⟩

/-- The model parts of a text are those of the definitions that the text is a layout of. -/
theorem ReadsModels.exists_layout (h : ReadsModels cs ns) :
    ∃ ds : List ModelDef, Layout (ds.flatMap ModelDef.tokens) cs ∧
      List.Forall₂ ModelDef.ReadAs ds ns := by
  obtain ⟨d, hrounds, hend⟩ := h
  obtain ⟨ds, hds⟩ := exists_spells_of_rounds (fun _ _ _ => exists_model) hrounds
  have hnil : Layout [] d.rest := by
    refine Layout.of_skipBlank ?_
    rw [hend]
    exact .nil
  have hlayout : Layout (ds.flatMap ModelDef.tokens) cs := by
    simpa [Cursor.start] using hds.layout hnil
  obtain ⟨ms, hms, hreads⟩ := readsModels_of_layout hlayout
  exact ⟨ds, hlayout, hms.unique ⟨d, hrounds, hend⟩ ▸ hreads⟩

theorem eq_of_layouts {ds ds' : List ModelDef} (h : Layout (ds.flatMap ModelDef.tokens) cs)
    (h' : Layout (ds'.flatMap ModelDef.tokens) cs) : ds = ds' := by
  obtain ⟨ms, hms, hreads⟩ := readsModels_of_layout h
  obtain ⟨ns, hns, hreads'⟩ := readsModels_of_layout h'
  obtain rfl := hms.unique hns
  exact List.left_unique_forall₂' ModelDef.leftUnique_readAs hreads hreads'

/-! ## Schemas -/

variable {ds : List ModelDef}

theorem declares_of_declareModels {s : Schema} (hreads : List.Forall₂ ModelDef.ReadAs ds ns)
    (h : declareModels .empty ns = .ok s) :
    List.Forall₂ ModelDef.Declares ds s.models.items := by
  obtain ⟨ms, hms, -, hitems⟩ := declareModels_eq_ok_iff.mp h
  rw [hitems]
  exact forall₂_of_mapM hreads hms fun _ _ _ h hread => h.declares hread

theorem exists_declareModels_iff (hreads : List.Forall₂ ModelDef.ReadAs ds ns) :
    (∃ s, declareModels .empty ns = .ok s) ↔ Declarable ds := by
  constructor
  · rintro ⟨s, h⟩
    have hdeclares := declares_of_declareModels hreads h
    exact {
      models := (nodup_names_iff ModelDef.Declares.name hdeclares).mp s.models.nodup
      fields := forall_of_forall₂ (fun _ _ h => h.nodup_fields) hdeclares
      integers := forall_of_forall₂ (fun _ _ h => h.isSome_value?) hdeclares }
  · intro h
    obtain ⟨ms, hms⟩ := exists_mapM
      (fun d hd n hn => hn.exists_model (h.fields d hd) (h.integers d hd)) hreads
    have hdeclares : List.Forall₂ ModelDef.Declares ds ms :=
      forall₂_of_mapM hreads hms fun _ _ _ h hread => h.declares hread
    have hnodup := (nodup_names_iff ModelDef.Declares.name hdeclares).mpr h.models
    exact ⟨⟨NameTable.empty.extend ms⟩,
      declareModels_eq_ok_iff.mpr ⟨ms, hms, hnodup, NameTable.items_extend_empty hnodup⟩⟩

end SchemaText

open SchemaText

/-- The schema of a text says what the definitions in the text do. -/
theorem declares_of_layout {text : String} {s : Schema} {ds : List ModelDef}
    (hds : IsLayout ds text) (hs : Schema.parse text = .ok s) :
    List.Forall₂ ModelDef.Declares ds s.models.items := by
  obtain ⟨ns, hns, hreads⟩ := readsModels_of_layout hds
  rw [parse_of_readsModels hns] at hs
  exact declares_of_declareModels hreads hs

/-- A text is parsed exactly if it is a layout of definitions that can be declared together. It is a
    layout of one list of definitions at most, and the schema that is returned says what they do.
    All other texts are refused, for their syntax exactly if they are no layouts. -/
theorem parse_reads_layouts (text : String) :
    ((∃ s, Schema.parse text = .ok s) ↔ ∃ ds, IsLayout ds text ∧ Declarable ds) ∧
      (∀ ds ds', IsLayout ds text → IsLayout ds' text → ds = ds') ∧
      (∀ ds s, IsLayout ds text → Schema.parse text = .ok s →
        List.Forall₂ ModelDef.Declares ds s.models.items) ∧
      ((∃ offset, Schema.parse text = .error (.malformedText .unexpected offset 0)) ↔
        ¬∃ ds, IsLayout ds text) := by
  refine ⟨⟨?_, ?_⟩, fun ds ds' => eq_of_layouts, ?_, ?_, ?_⟩
  · rintro ⟨s, hs⟩
    obtain ⟨ns, hns⟩ := exists_readsModels_of_parse hs
    obtain ⟨ds, hlayout, hreads⟩ := hns.exists_layout
    rw [parse_of_readsModels hns] at hs
    exact ⟨ds, hlayout, (exists_declareModels_iff hreads).mp ⟨s, hs⟩⟩
  · rintro ⟨ds, hlayout, hdeclarable⟩
    obtain ⟨ns, hns, hreads⟩ := readsModels_of_layout hlayout
    rw [parse_of_readsModels hns]
    exact (exists_declareModels_iff hreads).mpr hdeclarable
  · intro ds s hlayout hs
    obtain ⟨ns, hns, hreads⟩ := readsModels_of_layout hlayout
    rw [parse_of_readsModels hns] at hs
    exact declares_of_declareModels hreads hs
  · rintro ⟨offset, herror⟩ ⟨ds, hlayout⟩
    obtain ⟨ns, hns, -⟩ := readsModels_of_layout hlayout
    rw [parse_of_readsModels hns] at herror
    cases declareModels_declaring .empty ns _ herror
  · intro hnone
    refine parse_of_not_readsModels ?_
    rintro ⟨ns, hns⟩
    obtain ⟨ds, hlayout, -⟩ := hns.exists_layout
    exact hnone ⟨ds, hlayout⟩

/-- What a parsed schema shows of itself can be found by running the parser. -/
theorem exists_parse_of_map {β : Type} {text : String} {view : Schema → β} {b : β}
    (h : (Schema.parse text).toOption.map view = some b) :
    ∃ s, Schema.parse text = .ok s ∧ view s = b := by
  cases hparse : Schema.parse text with
  | error e => simp [hparse, Except.toOption] at h
  | ok s => exact ⟨s, rfl, by simpa [hparse, Except.toOption] using h⟩

/-! ## A shelf -/

/-- The names and arguments of attributes. -/
def attributeContents (attributes : List Attribute) : List (String × List AttributeValue) :=
  attributes.map fun a => (a.name, a.args)

/-- What a field says, apart from where it stands. -/
structure FieldContent where
  name : String
  type : FieldType
  modifier : Modifier
  attributes : List (String × List AttributeValue)
  documentation : Option String
  deriving DecidableEq

def Field.content (f : Field) : FieldContent :=
  ⟨f.name, f.type, f.modifier, attributeContents f.attributes, f.documentation.map (·.text)⟩

/-- What a model says, apart from where it stands. -/
structure ModelContent where
  name : String
  fields : List FieldContent
  attributes : List (String × List AttributeValue)
  documentation : Option String
  deriving DecidableEq

def Model.content (m : Model) : ModelContent :=
  ⟨m.name, m.fields.items.map Field.content, attributeContents m.attributes,
    m.documentation.map (·.text)⟩

/-- A text in which documentation, comments, marks and words stand close together. -/
def shelfText : String :=
  "/// Books.\nmodel Book \x7b // kept\n  id Int?@id(-1,true,\"//\")\n" ++
    "  //////  Names of\t\n  /// shelves\n  tags Tag[]@@map(truely)\x7d"

def shelfContent : ModelContent where
  name := "Book"
  fields := [
    ⟨"id", .scalar .int, .optional, [("id", [.int (-1), .bool true, .string "//"])], none⟩,
    ⟨"tags", .relation "Tag", .list, [], some "Names of\nshelves"⟩]
  attributes := [("map", [.ident "truely"])]
  documentation := some "Books."

theorem isLayout_shelfText :
    ∃ ds s, IsLayout ds shelfText ∧ Declarable ds ∧ Schema.parse shelfText = .ok s ∧
      List.Forall₂ ModelDef.Declares ds s.models.items ∧
      s.models.items.map Model.content = [shelfContent] := by
  obtain ⟨s, hparse, hcontent⟩ : ∃ s, Schema.parse shelfText = .ok s ∧
      s.models.items.map Model.content = [shelfContent] := exists_parse_of_map (by decide +kernel)
  obtain ⟨hlayouts, -, hdeclares, -⟩ := parse_reads_layouts shelfText
  obtain ⟨ds, hlayout, hdeclarable⟩ := hlayouts.mp ⟨s, hparse⟩
  exact ⟨ds, s, hlayout, hdeclarable, hparse, hdeclares ds s hlayout hparse, hcontent⟩

end SchemaFilter
