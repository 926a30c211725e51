import Mathlib.Data.List.Pairwise
import SchemaFilter.Proofs.Grammar.Placing
import SchemaFilter.Proofs.Schema.Concatenation

/-!
# Where declarations stand

The spans in a schema that was read from a text say where the text declares things. A declaration
stands within the one that it belongs to, what is declared side by side does not overlap, and a
model can be read again from its own text.

Main definitions and results:

* `Model.Located`: the spans of a model and of what it declares are right;
* `ModelDef.ReadAs.located`: what is read from a part that stands in a text is located in it;
* `parse_spans`: the spans of a schema that was read from a text.
-/

namespace SchemaFilter

open Grammar

/-! ## Spans of declarations -/

/-- The spans do not overlap. -/
def Span.Disjoint (s t : Span) : Prop := s.Before t ∨ t.Before s

/-- The span is a part of the source, whose ends are places between characters. -/
def Span.Fits (source : List Char) (s : Span) : Prop := ∃ w, s.Covers source w

/-- The name stands at its span, which is inside the given one. -/
structure Ident.Located (source : List Char) (outer : Span) (i : Ident) : Prop where
  covers : i.span.Covers source i.name.toList
  within : i.span.Within outer

structure Documentation.Located (source : List Char) (outer : Span) (d : Documentation) :
    Prop where
  fits : d.span.Fits source
  within : d.span.Within outer

structure Attribute.Located (source : List Char) (outer : Span) (a : Attribute) : Prop where
  fits : a.span.Fits source
  within : a.span.Within outer
  ident : a.ident.Located source a.span

structure Field.Located (source : List Char) (outer : Span) (f : Field) : Prop where
  fits : f.span.Fits source
  within : f.span.Within outer
  ident : f.ident.Located source f.span
  documentation : ∀ d ∈ f.documentation, d.Located source f.span
  attributes : ∀ a ∈ f.attributes, a.Located source f.span

/-- A model and all that it declares stand in the source, each inside what it belongs to. Its fields
    are in order, and no two of its fields and attributes overlap. -/
structure Model.Located (source : List Char) (m : Model) : Prop where
  fits : m.span.Fits source
  ident : m.ident.Located source m.span
  documentation : ∀ d ∈ m.documentation, d.Located source m.span
  fields : ∀ f ∈ m.fields.items, f.Located source m.span
  attributes : ∀ a ∈ m.attributes, a.Located source m.span
  ordered : (m.fields.items.map (·.span)).Pairwise Span.Before
  disjoint : (m.fields.items.map (·.span) ++ m.attributes.map (·.span)).Pairwise Span.Disjoint

namespace SchemaText

variable {source : List Char} {n i : Part} {s : Symbol} {outer : Span} {ns : List Part}

/-! ## What is read from placed parts -/

/-- What is read from a list of parts is read from one of them. -/
theorem exists_mem_of_mapM {ε α β γ : Type} {f : β → Except ε γ} {r : α → β → Prop} {xs : List α}
    {ns : List β} {ys : List γ} {y : γ} (hr : List.Forall₂ r xs ns) (hf : ns.mapM f = .ok ys)
    (hy : y ∈ ys) : ∃ x, ∃ n ∈ ns, r x n ∧ f n = .ok y := by
  rw [mapM_eq_ok_iff] at hf
  induction hr generalizing ys with
  | nil =>
    cases hf
    cases hy
  | @cons x n xs ns hx _ ih =>
    cases hf with
    | cons hn hns =>
      obtain rfl | hy := List.mem_cons.mp hy
      · exact ⟨x, n, List.mem_cons_self, hx, hn⟩
      · obtain ⟨x', n', hn', h⟩ := ih hns hy
        exact ⟨x', n', List.mem_cons_of_mem n hn', h⟩

theorem map_eq_of_mapM {ε α β γ : Type} {f : α → Except ε β} {g : β → γ} {k : α → γ} {as : List α}
    {bs : List β} (hf : as.mapM f = .ok bs) (h : ∀ a b, f a = .ok b → g b = k a) :
    bs.map g = as.map k := by
  rw [mapM_eq_ok_iff] at hf
  induction hf with
  | nil => rfl
  | cons hb _ ih => rw [List.map_cons, List.map_cons, ih, h _ _ hb]

theorem located_ident (hlies : i.Lies source) (hwithin : i.span.Within outer) :
    (Ident.mk i.string i.span).Located source outer :=
  ⟨by simpa [Node.string] using hlies.covers, hwithin⟩

theorem AttributeDef.ReadAs.located {d : AttributeDef} {a : Attribute} (h : d.ReadAs s n)
    (hread : readAttribute n = .ok a) (hlies : n.Lies source) (hwithin : n.span.Within outer) :
    a.span = n.span ∧ a.Located source outer := by
  obtain ⟨i, args, hi, rfl⟩ :
      ∃ i args, i ∈ n.children ∧ a = ⟨⟨i.string, i.span⟩, args, n.span⟩ := by
    cases h with
    | @bare _ _ _ i hname =>
      rw [readAttribute_bare hname.symbol] at hread
      exact ⟨i, [], List.mem_cons_self, (Except.ok.inj hread).symm⟩
    | @applied _ as _ _ _ _ i ns hname _ =>
      rw [readAttribute_applied hname.symbol] at hread
      cases hargs : ns.mapM readArgument with
      | error e => simp [hargs, Except.map] at hread
      | ok args =>
        simp only [hargs, Except.map, Except.ok.injEq] at hread
        exact ⟨i, args, List.mem_cons_self, hread.symm⟩
  obtain ⟨hident, hinside⟩ := hlies.inside.lies_of_mem hi
  exact ⟨rfl, ⟨_, hlies.covers⟩, hwithin, located_ident hident hinside⟩

theorem DocsReadAs.located {ls : List LineText} {docs : List Part} (h : DocsReadAs ls docs)
    (hlies : ∀ p ∈ docs, p.Lies source ∧ p.span.Within outer) :
    ∀ d ∈ documentationOf docs, d.Located source outer := by
  intro d hd
  cases h with
  | none => cases hd
  | some hlines =>
    obtain rfl := Option.some.inj hd
    obtain ⟨hp, hwithin⟩ := hlies _ List.mem_cons_self
    exact ⟨⟨_, hp.covers⟩, hwithin⟩

theorem FieldDef.ReadAs.located {d : FieldDef} {f : Field} (h : d.ReadAs n)
    (hread : readField n = .ok f) (hlies : n.Lies source) (hwithin : n.span.Within outer) :
    f.span = n.span ∧ f.Located source outer := by
  cases h with
  | @mk span text docs i t as hdocs hname htype hattributes =>
    rw [readField_eq hdocs hname.symbol htype.symbol (forall_symbol_of_forall₂ hattributes)]
      at hread
    cases has : as.mapM readAttribute with
    | error e => simp [has, Except.map] at hread
    | ok xs =>
      simp only [has, Except.map, Except.ok.injEq] at hread
      subst hread
      have hparts : ∀ p ∈ docs ++ i :: t :: as, p.Lies source ∧ p.span.Within span := fun p hp =>
        hlies.inside.lies_of_mem hp
      obtain ⟨hident, hinside⟩ := hparts i (by simp)
      refine ⟨rfl, ⟨_, hlies.covers⟩, hwithin, located_ident hident hinside,
        hdocs.located fun p hp => hparts p (by simp [hp]), fun a ha => ?_⟩
      obtain ⟨d, p, hp, hd, hreads⟩ := exists_mem_of_mapM hattributes has ha
      obtain ⟨hlies, hwithin⟩ := hparts p (by simp [hp])
      exact (hd.located hreads hlies hwithin).2

/-! ## Items of models -/

def ModelItem.span : ModelItem → Span
  | field f => f.span
  | modelAttribute a => a.span

def ModelItem.Located (source : List Char) (outer : Span) : ModelItem → Prop
  | field f => f.Located source outer
  | modelAttribute a => a.Located source outer

theorem ItemDef.ReadAs.located {d : ItemDef} {o : Option ModelItem} (h : d.ReadAs n)
    (hread : readModelItem n = .ok o) (hlies : n.Lies source) (hwithin : n.span.Within outer) :
    ∃ x, o = some x ∧ x.span = n.span ∧ x.Located source outer := by
  cases d with
  | field d =>
    rw [readModelItem, FieldDef.ReadAs.symbol h] at hread
    cases hf : readField n with
    | error e => simp [hf, Except.map] at hread
    | ok f =>
      simp only [hf, Except.map, Except.ok.injEq] at hread
      exact ⟨.field f, hread.symm, FieldDef.ReadAs.located h hf hlies hwithin⟩
  | modelAttribute d =>
    rw [readModelItem, AttributeDef.ReadAs.symbol h] at hread
    cases ha : readAttribute n with
    | error e => simp [ha, Except.map] at hread
    | ok a =>
      simp only [ha, Except.map, Except.ok.injEq] at hread
      exact ⟨.modelAttribute a, hread.symm, AttributeDef.ReadAs.located h ha hlies hwithin⟩

theorem located_items {ds : List ItemDef} {is : List Part} {os : List (Option ModelItem)}
    (hitems : List.Forall₂ ItemDef.ReadAs ds is) (hos : is.mapM readModelItem = .ok os)
    (hlies : ∀ p ∈ is, p.Lies source ∧ p.span.Within outer) :
    (os.filterMap id).map ModelItem.span = is.map (·.span) ∧
      ∀ x ∈ os.filterMap id, x.Located source outer := by
  rw [mapM_eq_ok_iff] at hos
  induction hitems generalizing os with
  | nil =>
    cases hos
    simp
  | @cons d n ds is hd _ ih =>
    cases hos with
    | @cons _ o _ os hn hns =>
      rw [List.forall_mem_cons] at hlies
      obtain ⟨x, rfl, hspan, hx⟩ := ItemDef.ReadAs.located hd hn hlies.1.1 hlies.1.2
      obtain ⟨hspans, hxs⟩ := ih hns hlies.2
      exact ⟨by simpa [hspan] using hspans, by simpa [hx] using hxs⟩

section Items

variable {items : List ModelItem}

theorem ordered_fields (h : (items.map ModelItem.span).Pairwise Span.Before) :
    ((items.filterMap (·.field?)).map (·.span)).Pairwise Span.Before := by
  rw [List.pairwise_map] at h ⊢
  refine h.filterMap _ ?_
  rintro (f | a) (g | b) hbefore f' hf g' hg <;> cases hf <;> cases hg
  exact hbefore

theorem ordered_attributes (h : (items.map ModelItem.span).Pairwise Span.Before) :
    ((items.filterMap (·.modelAttribute?)).map (·.span)).Pairwise Span.Before := by
  rw [List.pairwise_map] at h ⊢
  refine h.filterMap _ ?_
  rintro (f | a) (g | b) hbefore f' hf g' hg <;> cases hf <;> cases hg
  exact hbefore

theorem mem_fields_iff {f : Field} : f ∈ items.filterMap (·.field?) ↔ .field f ∈ items := by
  rw [List.mem_filterMap]
  constructor
  · rintro ⟨g | a, hmem, hf⟩ <;> cases hf
    exact hmem
  · exact fun hmem => ⟨_, hmem, rfl⟩

theorem mem_attributes_iff {a : Attribute} :
    a ∈ items.filterMap (·.modelAttribute?) ↔ .modelAttribute a ∈ items := by
  rw [List.mem_filterMap]
  constructor
  · rintro ⟨f | b, hmem, ha⟩ <;> cases ha
    exact hmem
  · exact fun hmem => ⟨_, hmem, rfl⟩

/-- Fields and attributes that are declared in the order of some items do not overlap. -/
theorem disjoint_items (h : (items.map ModelItem.span).Pairwise Span.Before) :
    ((items.filterMap (·.field?)).map (·.span) ++
      (items.filterMap (·.modelAttribute?)).map (·.span)).Pairwise Span.Disjoint := by
  have hsymm : Std.Symm fun x y : ModelItem => x.span.Disjoint y.span := ⟨fun _ _ => Or.symm⟩
  have hitems : items.Pairwise fun x y => x.span.Disjoint y.span :=
    (List.pairwise_map.mp h).imp .inl
  refine List.pairwise_append.mpr
    ⟨(ordered_fields h).imp .inl, (ordered_attributes h).imp .inl, ?_⟩
  simp only [List.mem_map, mem_fields_iff, mem_attributes_iff]
  rintro _ ⟨f, hf, rfl⟩ _ ⟨a, ha, rfl⟩
  exact hitems.forall hf ha (by simp)

end Items

/-! ## Models -/

theorem span_of_readModel {m : Model} (h : readModel n = .ok m) : m.span = n.span := by
  unfold readModel at h
  cases hos : n.children.mapM readModelItem with
  | error e => simp [hos, bind, Except.bind] at h
  | ok os =>
    simp only [hos, bind, Except.bind] at h
    rw [(declareFields_eq_ok_iff.mp h).2.2]

theorem ModelDef.ReadAs.located {d : ModelDef} {m : Model} (h : d.ReadAs n)
    (hread : readModel n = .ok m) (hlies : n.Lies source) : m.Located source := by
  cases h with
  | @mk span text docs k i is hdocs hkeyword hname hitems =>
    rw [readModel_eq hdocs hkeyword hname.symbol (forall_symbol_of_items hitems)] at hread
    cases hos : is.mapM readModelItem with
    | error e => simp [hos, Except.bind] at hread
    | ok os =>
      simp only [hos, Except.bind] at hread
      obtain ⟨-, hfields, hm⟩ := declareFields_eq_ok_iff.mp hread
      have hparts : ∀ p ∈ docs ++ k :: i :: is, p.Lies source ∧ p.span.Within span := fun p hp =>
        hlies.inside.lies_of_mem hp
      obtain ⟨hspans, hlocated⟩ := located_items hitems hos fun p hp => hparts p (by simp [hp])
      have hordered : ((os.filterMap id).map ModelItem.span).Pairwise Span.Before := by
        rw [hspans]
        have hsublist : is.Sublist (docs ++ k :: i :: is) :=
          (((List.Sublist.refl is).cons i).cons k).trans (List.sublist_append_right docs _)
        exact hlies.inside.pairwise.sublist (hsublist.map _)
      have hfields' : m.fields.items = (os.filterMap id).filterMap (·.field?) := by
        rw [hfields]
        rfl
      obtain ⟨hident, hinside⟩ := hparts i (by simp)
      rw [hm]
      exact {
        fits := ⟨_, hlies.covers⟩
        ident := located_ident hident hinside
        documentation := hdocs.located fun p hp => hparts p (by simp [hp])
        fields := fun f hf => by
          rw [hfields', mem_fields_iff] at hf
          exact hlocated _ hf
        attributes := fun a ha => hlocated _ (mem_attributes_iff.mp ha)
        ordered := by
          rw [hfields']
          exact ordered_fields hordered
        disjoint := by
          rw [hfields']
          exact disjoint_items hordered }

/-! ## The text of a model -/

variable {c d : Cursor} {cs : List Char}

theorem exists_match_of_mem (h : Rounds model skipBlank c ns d) (hc : c.On cs) (hn : n ∈ ns) :
    ∃ a b, a.On cs ∧ skipBlank a = a ∧ model.match? skipBlank a = some (b, [n]) := by
  induction h with
  | none => cases hn
  | @more b c d ms ns first _ ih =>
    have hskip := hc.skipped forward_skipBlank
    obtain ⟨w, hw, -⟩ := Expr.match?_passes forward_skipBlank first
    obtain ⟨_, -, rfl⟩ := Expr.match?_phrase.mp first
    obtain rfl | hn := List.mem_cons.mp hn
    · exact ⟨_, c, hskip, skipBlank_skipBlank b, first⟩
    · exact ih (hskip.passes hw) hn

/-- A model is read in the same way where nothing comes after it. -/
theorem match?_model_alone {w : List Char} (h : model.match? skipBlank c = some (d, [n]))
    (hskip : skipBlank c = c) (hw : c.Passes w d) :
    ∃ m : ModelDef, Layout m.tokens w ∧ m.ReadAs n ∧ skipBlank ⟨c.offset, w⟩ = ⟨c.offset, w⟩ ∧
      model.match? skipBlank ⟨c.offset, w⟩ = some (⟨d.offset, []⟩, [n]) := by
  obtain ⟨m, v, hv, hspells⟩ := exists_model h
  obtain ⟨u, hu⟩ := passes_closeBrace h
  obtain rfl : v = w := List.append_cancel_right (hv.rest.symm.trans hw.rest)
  obtain rfl : v = u ++ ['\x7d'] := List.append_cancel_right (hv.rest.symm.trans hu.rest)
  have hlayout : Layout m.tokens (u ++ ['\x7d']) := by
    simpa using hspells [] [] (.inl startsLine_nil) .nil
  have hlaid : Laid (fun _ => True) m.tokens (u ++ ['\x7d']) :=
    hlayout.laid_closed m.getLast?_tokens List.getLast?_concat
  have hc : (⟨c.offset, u ++ ['\x7d']⟩ : Cursor).followedBy d.rest = c := by
    rw [Cursor.followedBy, ← hu.rest]
  have hskip₀ : skipBlank ⟨c.offset, u ++ ['\x7d']⟩ = ⟨c.offset, u ++ ['\x7d']⟩ := by
    rw [← Cursor.followedBy_inj, ← hlaid.skipBlank_followedBy m.tokens_ne_nil trivial, hc, hskip]
  have hready : Ready (fun _ => True) (m.tokens ++ []) (u ++ ['\x7d']) := by
    have hready := hlaid.ready (c := ⟨c.offset, u ++ ['\x7d']⟩)
    rwa [hskip₀, ← List.append_nil m.tokens] at hready
  obtain ⟨d₀, n₀, hreads, hreadAs, -⟩ := reads_model m ⟨c.offset, u ++ ['\x7d']⟩ hready
  have hfollowed := hreads d.rest trivial
  rw [hc, h] at hfollowed
  obtain ⟨hd, hn⟩ := Prod.mk.inj (Option.some.inj hfollowed)
  obtain rfl := List.singleton_inj.mp hn
  have hend : d₀ = ⟨d.offset, []⟩ := by
    rw [← Cursor.followedBy_inj, ← hd]
    rfl
  have halone := hreads [] trivial
  rw [Cursor.followedBy_nil, Cursor.followedBy_nil, hend] at halone
  exact ⟨m, hlayout, hreadAs, hskip₀, halone⟩

/-- What is read of a model, moved to the start of its own text, is all that is read there. -/
theorem readsModels_alone {w : List Char} (h : model.match? skipBlank c = some (d, [n]))
    (hskip : skipBlank c = c) (hw : c.Passes w d) :
    ∃ (m : ModelDef) (n₀ : Part), m.ReadAs n ∧ m.ReadAs n₀ ∧ ReadsModels w [n₀] ∧
      n₀.shifted c.offset = n := by
  obtain ⟨m, hlayout, hreadAs, hskip, hmatch⟩ := match?_model_alone h hskip hw
  have hstart : (⟨c.offset, w⟩ : Cursor) = (Cursor.start w).shifted c.offset := by
    simp [Cursor.start, Cursor.shifted]
  rw [hstart, Expr.match?_shifted (skipBlank_shifted _), Option.map_eq_some_iff] at hmatch
  rw [hstart, skipBlank_shifted, Cursor.shifted_inj] at hskip
  obtain ⟨⟨d₀, ns₀⟩, hmatch, heq⟩ := hmatch
  obtain ⟨hd, hns⟩ := Prod.mk.inj heq
  obtain ⟨n₀, rfl, hn⟩ := List.map_eq_singleton_iff.mp hns
  have hreads : ReadsModels w [n₀] := by
    have hfirst : model.match? skipBlank (skipBlank (.start w)) = some (d₀, [n₀]) := by
      rw [hskip]
      exact hmatch
    refine ⟨d₀, .more hfirst (.none d₀), ?_⟩
    have hrest : d₀.rest = [] := congrArg Cursor.rest hd
    rw [skipBlank, hrest, skipFrom]
  have hmodels : Layout ([m].flatMap ModelDef.tokens) w := by simpa using hlayout
  obtain ⟨ms, hms, hreadAs₀⟩ := readsModels_of_layout hmodels
  obtain rfl := hms.unique hreads
  exact ⟨m, n₀, hreadAs, (List.forall₂_cons.mp hreadAs₀).1, hreads, hn⟩

/-- The text of a model is parsed to that model. -/
theorem exists_parse_alone {w : List Char} {m : Model}
    (h : model.match? skipBlank c = some (d, [n])) (hskip : skipBlank c = c)
    (hw : c.Passes w d) (hread : readModel n = .ok m) :
    ∃ s m₀, Schema.parse (String.ofList w) = .ok s ∧ s.models.items = [m₀] ∧
      m₀.shifted c.offset = m := by
  obtain ⟨def₀, n₀, hreadAs, hreadAs₀, hreads, rfl⟩ := readsModels_alone h hskip hw
  have hdeclares := hreadAs.declares hread
  obtain ⟨m₀, hread₀⟩ := hreadAs₀.exists_model hdeclares.nodup_fields hdeclares.isSome_value?
  have hshifted := readModel_shifted (k := c.offset) hreadAs₀ hread₀
  obtain rfl := Except.ok.inj (hread.symm.trans hshifted)
  refine ⟨Schema.empty.add m₀, m₀, ?_, rfl, rfl⟩
  have htext : ReadsModels (String.ofList w).toList [n₀] := by simpa using hreads
  rw [parse_of_readsModels htext]
  refine declareModels_eq_ok_iff.mpr ⟨[m₀], ?_, List.nodup_singleton _, rfl⟩
  exact mapM_eq_ok_iff.mpr (.cons hread₀ .nil)

end SchemaText

open SchemaText

/-- **Spans are faithful and nested.** In a schema that was read from a text, every model is located
    in it with all that it declares, and the models are in the order of the text without overlaps.
    The text at the span of a model, parsed by itself, gives this model alone, with all its spans
    moved back to the start. -/
theorem parse_spans {text : String} {s : Schema} (h : Schema.parse text = .ok s) :
    (∀ m ∈ s.models.items, m.Located text.toList) ∧
      (s.models.items.map (·.span)).Pairwise Span.Before ∧
      ∀ m ∈ s.models.items, ∃ w t m₀, m.span.Covers text.toList w ∧
        Schema.parse (String.ofList w) = .ok t ∧ t.models.items = [m₀] ∧
        m₀.shifted m.span.start = m := by
  obtain ⟨ns, hns⟩ := exists_readsModels_of_parse h
  obtain ⟨ds, -, hreads⟩ := hns.exists_layout
  rw [parse_of_readsModels hns] at h
  obtain ⟨ms, hms, -, hitems⟩ := declareModels_eq_ok_iff.mp h
  obtain rfl : s.models.items = ms := hitems
  obtain ⟨d, hrounds, -⟩ := hns
  have hstart : (Cursor.start text.toList).On text.toList := ⟨[], .refl _⟩
  have hplaced : Placed text.toList 0 d.offset ns :=
    hrounds.placed forward_skipBlank (Expr.placed_of_match? forward_skipBlank) hstart
  refine ⟨fun m hm => ?_, ?_, fun m hm => ?_⟩
  · obtain ⟨d, n, hn, hreadAs, hread⟩ := exists_mem_of_mapM hreads hms hm
    exact hreadAs.located hread (hplaced.lies_of_mem hn).1
  · rw [map_eq_of_mapM hms fun _ _ => span_of_readModel]
    exact hplaced.pairwise
  · obtain ⟨-, n, hn, -, hread⟩ := exists_mem_of_mapM hreads hms hm
    obtain ⟨a, b, ha, hskip, hmatch⟩ := exists_match_of_mem hrounds hstart hn
    obtain ⟨w, hw, -⟩ := Expr.match?_passes forward_skipBlank hmatch
    obtain ⟨t, m₀, hparse, hmodels, hshifted⟩ := exists_parse_alone hmatch hskip hw hread
    obtain ⟨_, -, hn⟩ := Expr.match?_phrase.mp hmatch
    obtain rfl := List.singleton_inj.mp hn
    rw [span_of_readModel hread]
    exact ⟨w, t, m₀, ha.covers hw, hparse, hmodels, hshifted⟩

/-- Two models with documentation, comments and characters of several bytes between their parts. -/
def signedText : String :=
  "/// Für alle.\nmodel Sign \x7b // öffentlich\n  id Int @id\n  text String? @map(\"Größe\")\n  " ++
    "@@map(\"signs\") \x7d\nmodel Wall \x7b signs Sign[] \x7d"

theorem parse_spans_signedText :
    ∃ s, Schema.parse signedText = .ok s ∧
      s.models.items.map (·.span) = [⟨0, 105⟩, ⟨106, 133⟩] ∧
      (∀ m ∈ s.models.items, m.Located signedText.toList) ∧
      ∀ m ∈ s.models.items, ∃ w t m₀, m.span.Covers signedText.toList w ∧
        Schema.parse (String.ofList w) = .ok t ∧ t.models.items = [m₀] ∧
        m₀.shifted m.span.start = m := by
  have hspans : (Schema.parse signedText).toOption.map (·.models.items.map (·.span)) =
      some [⟨0, 105⟩, ⟨106, 133⟩] := by decide +kernel
  obtain ⟨s, hs, hmodels⟩ := Option.map_eq_some_iff.mp hspans
  have hparse : Schema.parse signedText = .ok s := by
    cases h : Schema.parse signedText with
    | error e => simp [h, Except.toOption] at hs
    | ok t => simpa [h, Except.toOption] using hs
  obtain ⟨hlocated, -, halone⟩ := parse_spans hparse
  exact ⟨s, hparse, hmodels, hlocated, halone⟩

end SchemaFilter
