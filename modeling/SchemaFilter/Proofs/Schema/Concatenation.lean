import Mathlib.Data.List.Find
import SchemaFilter.Proofs.Schema.Parsing

/-!
# Schemas of several texts

A schema can be kept in several texts. Parsing them one by one and merging the schemas is the same
as parsing all the texts one after the other, each on lines of its own; only the spans of the later
ones move.

Main definitions and results:

* `Schema.shifted`: a schema with all its spans moved;
* `ReadsModels.append`: the model parts of two texts, one after the other;
* `parse_append_eq_merge`: parsing turns concatenation into `Schema.merge`, or the first model that
  is declared twice is reported.
-/

namespace SchemaFilter

open Grammar

/-! ## Moved schemas -/

/-- The identifier when `k` more bytes stand before its text. -/
def Ident.shifted (k : Nat) (i : Ident) : Ident := { i with span := i.span.shifted k }

def Documentation.shifted (k : Nat) (d : Documentation) : Documentation :=
  { d with span := d.span.shifted k }

def Attribute.shifted (k : Nat) (a : Attribute) : Attribute :=
  { a with ident := a.ident.shifted k, span := a.span.shifted k }

def Field.shifted (k : Nat) (f : Field) : Field :=
  { f with
    ident := f.ident.shifted k
    attributes := f.attributes.map (Attribute.shifted k)
    documentation := f.documentation.map (Documentation.shifted k)
    span := f.span.shifted k }

/-- The table of changed items. -/
def NameTable.map {α : Type} [Named α] (f : α → α) (t : NameTable α) : NameTable α :=
  empty.extend (t.items.map f)

/-- If items keep their names, a changed table has all the changed items. -/
theorem NameTable.items_map {α : Type} [Named α] {f : α → α}
    (hf : ∀ a, Named.name (f a) = Named.name a) (t : NameTable α) :
    (t.map f).items = t.items.map f := by
  apply items_extend_empty
  simpa [Function.comp_def, hf] using t.nodup

def Model.shifted (k : Nat) (m : Model) : Model :=
  { ident := m.ident.shifted k
    fields := m.fields.map (Field.shifted k)
    attributes := m.attributes.map (Attribute.shifted k)
    documentation := m.documentation.map (Documentation.shifted k)
    span := m.span.shifted k }

/-- The schema when `k` more bytes stand before its text. -/
def Schema.shifted (k : Nat) (s : Schema) : Schema := ⟨s.models.map (Model.shifted k)⟩

theorem Model.fields_shifted (k : Nat) (m : Model) :
    (m.shifted k).fields.items = m.fields.items.map (Field.shifted k) :=
  NameTable.items_map (f := Field.shifted k) (fun _ => rfl) m.fields

theorem Schema.models_shifted (k : Nat) (s : Schema) :
    (s.shifted k).models.items = s.models.items.map (Model.shifted k) :=
  NameTable.items_map (f := Model.shifted k) (fun _ => rfl) s.models

namespace SchemaText

variable {n i : Part} {k : Nat} {s : Symbol}

/-! ## Moved parts -/

@[simp] theorem symbol_shifted (k : Nat) (n : Part) : (n.shifted k).symbol = n.symbol := by
  cases n
  rfl

@[simp] theorem text_shifted (k : Nat) (n : Part) : (n.shifted k).text = n.text := by
  cases n
  rfl

@[simp] theorem span_shifted (k : Nat) (n : Part) : (n.shifted k).span = n.span.shifted k := by
  cases n
  rfl

@[simp] theorem string_shifted (k : Nat) (n : Part) : (n.shifted k).string = n.string := by
  rw [Node.string, Node.string, text_shifted]

theorem shifted_mk (k : Nat) (s : Symbol) (span : Span) (text : List Char) (ns : List Part) :
    Node.shifted k ⟨s, span, text, ns⟩ = ⟨s, span.shifted k, text, ns.map (Node.shifted k)⟩ := by
  rw [Node.shifted, shiftedAll_eq_map]

theorem IsToken.shifted {w : List Char} (h : IsToken s w n) (k : Nat) :
    IsToken s w (n.shifted k) := ⟨by rw [symbol_shifted, h.symbol], by rw [text_shifted, h.text]⟩

/-- What is read from moved parts, if it is known from single ones. -/
theorem mapM_shifted {ε α γ : Type} {f : Part → Except ε γ} {g : γ → γ} {r : α → Part → Prop}
    {xs : List α} {ns : List Part} {ys : List γ} (hr : List.Forall₂ r xs ns)
    (hf : ns.mapM f = .ok ys)
    (h : ∀ x n y, r x n → f n = .ok y → f (n.shifted k) = .ok (g y)) :
    (ns.map (Node.shifted k)).mapM f = .ok (ys.map g) := by
  rw [mapM_eq_ok_iff] at hf ⊢
  induction hr generalizing ys with
  | nil =>
    cases hf
    exact .nil
  | cons hx _ ih =>
    cases hf with
    | cons hy hys => exact .cons (h _ _ _ hx hy) (ih hys)

theorem readArgument_shifted {a : ArgumentDef} {v : AttributeValue} (h : a.ReadAs n)
    (hread : readArgument n = .ok v) : readArgument (n.shifted k) = .ok v := by
  rw [ArgumentDef.ReadAs.readArgument_eq_ok_iff (IsToken.shifted h k)]
  exact h.readArgument_eq_ok_iff.mp hread

theorem readAttribute_shifted {d : AttributeDef} {a : Attribute} (h : d.ReadAs s n)
    (hread : readAttribute n = .ok a) : readAttribute (n.shifted k) = .ok (a.shifted k) := by
  cases h with
  | bare hname =>
    rw [readAttribute_bare hname.symbol] at hread
    obtain rfl := Except.ok.inj hread
    rw [shifted_mk, List.map_singleton, readAttribute_bare (hname.shifted k).symbol,
      string_shifted, span_shifted]
    rfl
  | @applied name as _ _ _ _ i ns hname hargs =>
    rw [readAttribute_applied hname.symbol] at hread
    cases hns : ns.mapM readArgument with
    | error e => simp [hns, Except.map] at hread
    | ok args =>
      simp only [hns, Except.map, Except.ok.injEq] at hread
      subst hread
      have hns' : (ns.map (Node.shifted k)).mapM readArgument = .ok (args.map id) :=
        mapM_shifted hargs hns fun _ _ _ h hread => readArgument_shifted h hread
      rw [List.map_id] at hns'
      rw [shifted_mk, List.map_cons, List.map_singleton, shifted_mk,
        readAttribute_applied (hname.shifted k).symbol, hns', string_shifted, span_shifted]
      rfl

theorem DocsReadAs.shifted {ls : List LineText} {docs : List Part} (h : DocsReadAs ls docs)
    (k : Nat) : DocsReadAs ls (docs.map (Node.shifted k)) := by
  cases h with
  | none => exact .none
  | some hlines =>
    rw [List.map_singleton, shifted_mk]
    exact .some (List.forall₂_map_right_iff.mpr (hlines.imp fun _ _ h => h.shifted k))

theorem DocsReadAs.documentationOf_shifted {ls : List LineText} {docs : List Part}
    (h : DocsReadAs ls docs) (k : Nat) :
    documentationOf (docs.map (Node.shifted k)) =
      (documentationOf docs).map (Documentation.shifted k) := by
  cases h with
  | none => rfl
  | @some l ls span text ns hlines =>
    have htext : docLineText ∘ Node.shifted k = docLineText := by
      funext n
      simp [docLineText]
    simp [documentationOf, shifted_mk, Documentation.shifted, htext]

theorem TypeReadAs.shifted {name : Name} {isList isOptional : Bool}
    (h : TypeReadAs name isList isOptional n) (k : Nat) :
    TypeReadAs name isList isOptional (n.shifted k) := by
  cases h with
  | mk hname hmarks =>
    rw [shifted_mk, List.map_cons]
    exact .mk (hname.shifted k) (by simpa [Function.comp_def] using hmarks)

theorem readField_shifted {d : FieldDef} {f : Field} (h : d.ReadAs n)
    (hread : readField n = .ok f) : readField (n.shifted k) = .ok (f.shifted k) := by
  cases h with
  | @mk _ _ docs i t as hdocs hname htype hattributes =>
    have hsymbols := forall_symbol_of_forall₂ hattributes
    rw [readField_eq hdocs hname.symbol htype.symbol hsymbols] at hread
    cases has : as.mapM readAttribute with
    | error e => simp [has, Except.map] at hread
    | ok xs =>
      simp only [has, Except.map, Except.ok.injEq] at hread
      subst hread
      have has' : (as.map (Node.shifted k)).mapM readAttribute =
          .ok (xs.map (Attribute.shifted k)) :=
        mapM_shifted hattributes has fun _ _ _ h hread => readAttribute_shifted h hread
      rw [shifted_mk, List.map_append, List.map_cons, List.map_cons,
        readField_eq (hdocs.shifted k) (hname.shifted k).symbol (htype.shifted k).symbol
          (by simpa using hsymbols), has', (htype.shifted k).readFieldType_eq,
        hdocs.documentationOf_shifted, string_shifted, span_shifted, ← htype.readFieldType_eq]
      rfl

/-- The item when `k` more bytes stand before its text. -/
def ModelItem.shifted (k : Nat) : ModelItem → ModelItem
  | field f => .field (f.shifted k)
  | modelAttribute a => .modelAttribute (a.shifted k)

theorem readModelItem_shifted {d : ItemDef} {o : Option ModelItem} (h : d.ReadAs n)
    (hread : readModelItem n = .ok o) :
    readModelItem (n.shifted k) = .ok (o.map (ModelItem.shifted k)) := by
  cases d with
  | field d =>
    have hsymbol := FieldDef.ReadAs.symbol h
    cases hf : readField n with
    | error e => simp [readModelItem, hsymbol, hf, Except.map] at hread
    | ok f =>
      simp only [readModelItem, hsymbol, hf, Except.map, Except.ok.injEq] at hread
      subst hread
      simp [readModelItem, hsymbol, readField_shifted h hf, Except.map, ModelItem.shifted]
  | modelAttribute d =>
    have hsymbol := AttributeDef.ReadAs.symbol h
    cases ha : readAttribute n with
    | error e => simp [readModelItem, hsymbol, ha, Except.map] at hread
    | ok a =>
      simp only [readModelItem, hsymbol, ha, Except.map, Except.ok.injEq] at hread
      subst hread
      simp [readModelItem, hsymbol, readAttribute_shifted h ha, Except.map, ModelItem.shifted]

theorem fields_shifted (k : Nat) (os : List (Option ModelItem)) :
    ((os.map (Option.map (ModelItem.shifted k))).filterMap id).filterMap (·.field?) =
      ((os.filterMap id).filterMap (·.field?)).map (Field.shifted k) := by
  induction os with
  | nil => rfl
  | cons o os ih =>
    match o with
    | none => exact ih
    | some (.field f) => exact congrArg (f.shifted k :: ·) ih
    | some (.modelAttribute a) => exact ih

theorem modelAttributes_shifted (k : Nat) (os : List (Option ModelItem)) :
    ((os.map (Option.map (ModelItem.shifted k))).filterMap id).filterMap (·.modelAttribute?) =
      ((os.filterMap id).filterMap (·.modelAttribute?)).map (Attribute.shifted k) := by
  induction os with
  | nil => rfl
  | cons o os ih =>
    match o with
    | none => exact ih
    | some (.field f) => exact ih
    | some (.modelAttribute a) => exact congrArg (a.shifted k :: ·) ih

theorem declareFields_shifted {m m' : Model} {fs : List Field} (h : declareFields m fs = .ok m') :
    declareFields (m.shifted k) (fs.map (Field.shifted k)) = .ok (m'.shifted k) := by
  obtain ⟨hnodup, hitems, hm⟩ := declareFields_eq_ok_iff.mp h
  have hfields : (m.shifted k).fields.items ++ fs.map (Field.shifted k) =
      (m.fields.items ++ fs).map (Field.shifted k) := by
    rw [m.fields_shifted, List.map_append]
  have hname : Named.name ∘ Field.shifted k = Named.name := rfl
  rw [declareFields_eq_ok_iff, hfields, List.map_map, hname, ← hitems]
  refine ⟨hitems ▸ hnodup, m'.fields_shifted k, ?_⟩
  rw [hm]
  rfl

theorem readModel_shifted {d : ModelDef} {m : Model} (h : d.ReadAs n)
    (hread : readModel n = .ok m) : readModel (n.shifted k) = .ok (m.shifted k) := by
  cases h with
  | @mk _ _ docs kw i is hdocs hkeyword hname hitems =>
    rw [readModel_eq hdocs hkeyword hname.symbol (forall_symbol_of_items hitems)] at hread
    cases hos : is.mapM readModelItem with
    | error e => simp [hos, Except.bind] at hread
    | ok os =>
      simp only [hos, Except.bind] at hread
      have hos' : (is.map (Node.shifted k)).mapM readModelItem =
          .ok (os.map (Option.map (ModelItem.shifted k))) :=
        mapM_shifted hitems hos fun _ _ _ h hread => readModelItem_shifted h hread
      rw [shifted_mk, List.map_append, List.map_cons, List.map_cons,
        readModel_eq (hdocs.shifted k) ((symbol_shifted k kw).trans hkeyword)
          (hname.shifted k).symbol (by simpa using forall_symbol_of_items hitems), hos',
        hdocs.documentationOf_shifted, string_shifted, span_shifted]
      simp only [Except.bind, fields_shifted, modelAttributes_shifted]
      exact declareFields_shifted hread

/-! ## Parts of two texts -/

/-- The models of a text stay what they are when more lines come after it. -/
theorem ReadsModels.followedBy {cs : List Char} {ns : List Part} (h : ReadsModels cs ns) :
    ∃ d : Cursor, (∀ x, StartsLine x →
        Rounds model skipBlank ((Cursor.start cs).followedBy x) ns (d.followedBy x)) ∧
      (skipBlank d).rest = [] ∧ d.offset + byteLength d.rest = byteLength cs := by
  obtain ⟨ds, hlayout, -⟩ := h.exists_layout
  obtain ⟨d, ms, hrounds, -, hd⟩ := rounds_of_models hlayout.laid_lines
  have hall := rounds_of_followedBy startsLine_nil hrounds
  obtain rfl := h.unique ⟨d, hall, hd.skipBlank_eq_nil⟩
  obtain ⟨w, hw⟩ := hall.passes forward_skipBlank fun h =>
    (Expr.match?_passes forward_skipBlank h).imp fun _ hw => hw.1
  refine ⟨d, hrounds, hd.skipBlank_eq_nil, ?_⟩
  have hrest : cs = w ++ d.rest := hw.rest
  rw [hrest, byteLength_append, hw.offset, Cursor.start, Nat.zero_add]

/-- The model parts of two texts, when the second one starts on a line of its own. -/
theorem ReadsModels.append {cs ds : List Char} {ms ns : List Part} (h : ReadsModels cs ms)
    (h' : ReadsModels ds ns) :
    ReadsModels (cs ++ '\n' :: ds) (ms ++ ns.map (Node.shifted (byteLength cs + 1))) := by
  obtain ⟨d, hrounds, hend, hoffset⟩ := h.followedBy
  obtain ⟨d', hrounds', hend'⟩ := h'
  have hskip : skipBlank ((Cursor.start ds).shifted (byteLength cs + 1)) =
      skipBlank (d.followedBy ('\n' :: ds)) := by
    rw [skipBlank_followedBy_newline ds hend, hoffset, Cursor.shifted, Cursor.start, Nat.zero_add]
  obtain ⟨e, hrounds₂, he⟩ := (hrounds'.shifted (skipBlank_shifted _)).of_skip_eq hskip
  refine ⟨e, (hrounds _ ?_).trans hrounds₂, ?_⟩
  · intro c hc
    obtain rfl := Option.some.inj hc
    rfl
  · rw [he, skipBlank_shifted]
    exact hend'

/-! ## Declaration -/

theorem declareModels_append (s : Schema) (ms ns : List Part) :
    declareModels s (ms ++ ns) = (declareModels s ms).bind fun t => declareModels t ns := by
  induction ms generalizing s with
  | nil => rfl
  | cons m ms ih =>
    simp only [List.cons_append, declareModels]
    cases readModel m with
    | error e => rfl
    | ok m =>
      simp only [bind, Except.bind]
      split
      · rfl
      · exact ih _

theorem declares_add_of_ne {s : Schema} {m : Model} {name : String} (h : name ≠ m.name) :
    (s.add m).declares name = s.declares name := by
  have hname : Named.name m = m.name := rfl
  rw [Bool.eq_iff_iff, Schema.declares, Schema.declares, NameTable.contains_iff,
    NameTable.contains_iff, Schema.add, NameTable.names_insert, hname]
  split <;> simp [h]

/-- Models that can be read and have distinct names are all declared, unless the schema has one of
    them already. -/
theorem declareModels_of_mapM {s : Schema} {ns : List Part} {ms : List Model}
    (hns : ns.mapM readModel = .ok ms) (hnodup : (ms.map Named.name).Nodup) :
    declareModels s ns =
      match (ms.map Named.name).find? s.declares with
      | none => .ok ⟨s.models.extend ms⟩
      | some name => .error (.duplicate .model name) := by
  rw [mapM_eq_ok_iff] at hns
  induction hns generalizing s with
  | nil => rfl
  | @cons n m ns ms hm _ ih =>
    rw [List.map_cons, List.nodup_cons] at hnodup
    simp only [declareModels, hm, bind, Except.bind]
    cases hmem : s.declares m.name with
    | true =>
      rw [List.map_cons, List.find?_cons_of_pos (show s.declares (Named.name m) = true from hmem)]
      rfl
    | false =>
      have hfind : (ms.map Named.name).find? (s.add m).declares =
          (ms.map Named.name).find? s.declares :=
        List.find?_congr fun name hname => declares_add_of_ne fun heq =>
          hnodup.1 (show m.name ∈ _ from heq ▸ hname)
      have hneg : ¬s.declares (Named.name m) = true := by
        rw [show s.declares (Named.name m) = false from hmem]
        exact Bool.false_ne_true
      rw [List.map_cons, List.find?_cons_of_neg hneg, ← hfind]
      exact ih hnodup.2

end SchemaText

open SchemaText

/-- Parsing turns concatenation into merging. Of two texts that can be parsed, the second one on a
    line of its own after the first is parsed to the merged schemas, where the second one is moved
    by the bytes before its text; or else the first model of the second text that the first text
    declares too is a duplicate. -/
theorem parse_append_eq_merge {s₁ s₂ : String} {t₁ t₂ : Schema} (h₁ : Schema.parse s₁ = .ok t₁)
    (h₂ : Schema.parse s₂ = .ok t₂) :
    Schema.parse (s₁ ++ "\n" ++ s₂) =
      match t₂.modelNames.find? t₁.declares with
      | none => .ok (t₁.merge (t₂.shifted (byteLength s₁.toList + 1)))
      | some name => .error (.duplicate .model name) := by
  obtain ⟨ns₁, hns₁⟩ := exists_readsModels_of_parse h₁
  obtain ⟨ns₂, hns₂⟩ := exists_readsModels_of_parse h₂
  obtain ⟨ds, -, hreads⟩ := hns₂.exists_layout
  rw [parse_of_readsModels hns₁] at h₁
  rw [parse_of_readsModels hns₂] at h₂
  have hboth := hns₁.append hns₂
  rw [show s₁.toList ++ '\n' :: s₂.toList = (s₁ ++ "\n" ++ s₂).toList by simp] at hboth
  obtain ⟨ms, hms, hnodup, hitems⟩ := declareModels_eq_ok_iff.mp h₂
  obtain rfl : t₂.models.items = ms := hitems
  have hshifted := mapM_shifted hreads hms fun _ _ _ h hread =>
    readModel_shifted (k := byteLength s₁.toList + 1) h hread
  have hnames : (t₂.models.items.map (Model.shifted (byteLength s₁.toList + 1))).map Named.name =
      t₂.modelNames := (List.map_map ..).trans t₂.models.names_eq.symm
  rw [parse_of_readsModels hboth, declareModels_append, h₁, Except.bind,
    declareModels_of_mapM hshifted (hnames ▸ t₂.models.nodup_names), hnames]
  simp only [Schema.merge, NameTable.merge_eq_extend, Schema.models_shifted]

/-- The first of two texts; its last comment has no line end. -/
def authorsText : String := "model Author \x7b id Int @id \x7d // by name"

def booksText : String := "/// What authors write.\nmodel Book \x7b by Author \x7d\n"

theorem parse_authors_and_books :
    ∃ t₁ t₂, Schema.parse authorsText = .ok t₁ ∧ Schema.parse booksText = .ok t₂ ∧
      Schema.parse (authorsText ++ "\n" ++ booksText) =
        .ok (t₁.merge (t₂.shifted (byteLength authorsText.toList + 1))) ∧
      Schema.parse (authorsText ++ "\n" ++ authorsText) = .error (.duplicate .model "Author") := by
  obtain ⟨t₁, h₁, hauthor⟩ : ∃ t, Schema.parse authorsText = .ok t ∧ t.modelNames = ["Author"] :=
    exists_parse_of_map (by decide +kernel)
  obtain ⟨t₂, h₂, hbook⟩ : ∃ t, Schema.parse booksText = .ok t ∧ t.modelNames = ["Book"] :=
    exists_parse_of_map (by decide +kernel)
  have hdeclares : ∀ name, t₁.declares name = true ↔ name ∈ ["Author"] := fun name =>
    hauthor ▸ t₁.models.contains_iff name
  have hnew : t₂.modelNames.find? t₁.declares = none := by simp [hbook, hdeclares]
  have hold : t₁.modelNames.find? t₁.declares = some "Author" := by simp [hauthor, hdeclares]
  have hmerge := parse_append_eq_merge h₁ h₂
  have htwice := parse_append_eq_merge h₁ h₁
  rw [hnew] at hmerge
  rw [hold] at htwice
  exact ⟨t₁, t₂, h₁, h₂, hmerge, htwice⟩

end SchemaFilter
