import SchemaFilter.Proofs.Grammar.Failing
import SchemaFilter.Proofs.Schema.Parsing

/-!
# Where syntax errors are reported

A text that does not match the grammar is reported at the furthest place at which a part was tried
in vain. Up to there the text consists of tokens with which some definitions begin, so that it can
be continued to a text that matches; and models that are finished are behind that place.

Main definitions and results:

* `Begins`: the text between two cursors is the beginning of a definition;
* `begins_of_tried_model`: parts are tried only where a definition has begun;
* `exists_matches_append`: such a text can be continued;
* `parse_syntaxError`: the error of a text that does not match.
-/

namespace SchemaFilter.SchemaText

open Grammar Grammar.Expr

variable {α β : Type} {tokens : α → List Token} {b c d p : Cursor} {ts us : List Token}

/-! ## Begun definitions -/

/-- Between the cursors stand the first tokens of a definition. -/
def Begins (tokens : α → List Token) (c p : Cursor) : Prop :=
  ∃ x us vs, tokens x = us ++ vs ∧ Spells us c p

/-- Nothing of a definition is there yet. -/
theorem begins_refl (x : α) (c : Cursor) : Begins tokens c c := ⟨x, [], tokens x, rfl, .refl c⟩

/-- A part of a definition has begun, and the tokens of the definition before it are there. -/
theorem Begins.after {defined : β → List Token} (h : Begins tokens c p) (hts : Spells ts b c)
    (hdefined : ∀ x, ∃ y vs, defined y = ts ++ (tokens x ++ vs)) : Begins defined b p := by
  obtain ⟨x, us, vs, htokens, hus⟩ := h
  obtain ⟨y, vs', hy⟩ := hdefined x
  exact ⟨y, ts ++ us, vs ++ vs', by simp [hy, htokens], hts.append hus⟩

theorem begins_of_tried_many {e : Expr Symbol}
    (he : ∀ c d ns, e.match? skipBlank c = some (d, ns) → ∃ x, Spells (tokens x) c d)
    (htried : ∀ c, e.Tried skipBlank c p → Begins tokens c p)
    (h : (many e).Tried skipBlank c p) : Begins (fun xs : List α => xs.flatMap tokens) c p := by
  obtain h | ⟨b, ms, d, ns, hfirst, hothers, h⟩ := h
  · exact (htried c h).after (.refl c) fun x => ⟨[x], [], by simp⟩
  · obtain ⟨x, hx⟩ := he _ _ _ hfirst
    obtain ⟨xs, hxs⟩ := exists_spells_of_rounds he hothers
    exact (htried _ h).after (hx.append hxs).skipped fun y =>
      ⟨x :: (xs ++ [y]), [], by simp⟩

/-! ## Attributes -/

theorem eq_of_tried_argument {skip : Cursor → Cursor} (h : argument.Tried skip c p) : p = c := by
  simp only [argument, firstOf, stringLiteral, numberLiteral, booleanLiteral, identifier, Tried]
    at h
  tauto

theorem begins_of_tried_argument (h : argument.Tried skipBlank c p) :
    Begins (fun a : ArgumentDef => [a.token]) c p := by
  obtain rfl := eq_of_tried_argument h
  exact begins_refl (.word trueWord) p

theorem begins_of_tried_nextArgument (h : (seq (text ",") argument).Tried skipBlank c p) :
    Begins (fun a : ArgumentDef => [.mark .comma, a.token]) c p := by
  obtain ⟨⟨⟩⟩ | ⟨a, _, ha, h⟩ := h
  have hcomma := spells_mark (m := .comma) rfl ha
  exact (begins_of_tried_argument h).after hcomma.skipped fun x => ⟨x, [], by simp⟩

theorem begins_of_tried_arguments (h : arguments.Tried skipBlank c p) :
    Begins (fun as => .mark .openParen :: (argumentTokens as ++ [.mark .closeParen])) c p := by
  obtain ⟨-, rfl⟩ | ⟨⟨⟩⟩ | ⟨a, _, ha, h⟩ := h
  · exact begins_refl [] p
  have hopen := (spells_mark (m := .openParen) rfl ha).skipped
  obtain (h | ⟨b, _, hb, h⟩) | ⟨_, _, _, ⟨⟩⟩ := h
  · exact (begins_of_tried_argument h).after hopen fun x => ⟨[x], [.mark .closeParen], by
      simp [argumentTokens]⟩
  · obtain ⟨x, hx⟩ := exists_argument hb
    have hlist := begins_of_tried_many (fun _ _ _ => exists_nextArgument)
      (fun _ => begins_of_tried_nextArgument) h
    exact hlist.after (hopen.append hx.skipped) fun xs =>
      ⟨x :: xs, [.mark .closeParen], by simp [argumentTokens]⟩

theorem begins_of_tried_attribute {s : Symbol} {m : Mark} {mark : String}
    (hmark : text mark = word m.text) (h : (markedAttribute s mark).Tried skipBlank c p) :
    Begins (AttributeDef.tokens m) c p := by
  obtain ⟨-, rfl⟩ | ⟨⟨⟩⟩ | ⟨a, _, ha, h⟩ := h
  · exact begins_refl ⟨trueWord, none⟩ p
  have hopen := (spells_mark hmark ha).skipped
  obtain ⟨-, rfl⟩ | ⟨b, _, hb, h⟩ := h
  · exact ⟨⟨trueWord, none⟩, _, [.word trueWord], rfl, hopen⟩
  · obtain ⟨n, hn, -⟩ := match?_identifier.mp hb
    exact (begins_of_tried_arguments h).after (hopen.append hn.spells.skipped) fun as =>
      ⟨⟨n, some as⟩, [], by simp [AttributeDef.tokens]⟩

/-! ## Fields -/

theorem begins_of_tried_docs (h : (optional documentation).Tried skipBlank c p) :
    Begins (fun docs : List LineText => docs.map .docLine) c p := by
  have hline : ∀ c d ns, docLine.match? skipBlank c = some (d, ns) →
      ∃ l : LineText, Spells [.docLine l] c d := by
    intro c d ns h
    obtain ⟨l, hd, -⟩ := match?_docLine.mp h
    exact ⟨l, hd.spells⟩
  have htried : ∀ c, docLine.Tried skipBlank c p →
      Begins (fun l : LineText => [.docLine l]) c p := by
    rintro c ⟨-, rfl⟩
    exact begins_refl ⟨[], by simp⟩ p
  obtain ⟨-, rfl⟩ | h | ⟨b, _, hb, h⟩ := h
  · exact begins_refl [] p
  · exact (htried c h).after (.refl c) fun l => ⟨[l], [], by simp⟩
  · obtain ⟨l, hl⟩ := hline _ _ _ hb
    exact (begins_of_tried_many hline htried h).after hl.skipped fun ls =>
      ⟨l :: ls, [], by simp [List.map_eq_flatMap]⟩

/-- The parts of a type are tried at its start, or after its name and the mark of a list. -/
theorem exists_type_of_tried {skip : Cursor → Cursor} (h : fieldType.Tried skip c p) :
    p = c ∨ ∃ name isList, (Token.type name isList false).Between c p := by
  obtain ⟨-, rfl⟩ | ⟨-, rfl⟩ | ⟨a, _, ha, h⟩ := h
  · exact .inl rfl
  · exact .inl rfl
  obtain ⟨name, hname, -⟩ := (match?_nameToken .typeName).mp ha
  have hplain : (Token.type name false false).Between c a :=
    ⟨by simpa [Token.text] using hname.passes, hname.ends⟩
  obtain (⟨-, rfl⟩ | ⟨⟨⟩⟩) | ⟨b, _, hb, ⟨-, rfl⟩ | ⟨⟨⟩⟩⟩ := h
  · exact .inr ⟨name, false, hplain⟩
  obtain hb | ⟨-, rfl, -⟩ := match?_optional.mp hb
  · obtain ⟨_, hb, -⟩ := match?_phrase.mp hb
    exact .inr ⟨name, true, hname.passes.trans (match?_word.mp hb).1, trivial⟩
  · exact .inr ⟨name, false, hplain⟩

theorem begins_of_tried_field (h : field.Tried skipBlank c p) : Begins FieldDef.tokens c p := by
  obtain ⟨-, rfl⟩ | h | ⟨a, _, ha, h⟩ := h
  · exact begins_refl ⟨[], trueWord, trueWord, false, false, []⟩ p
  · exact (begins_of_tried_docs h).after (.refl c) fun docs =>
      ⟨⟨docs, trueWord, trueWord, false, false, []⟩, _, rfl⟩
  obtain ⟨docs, hdocs⟩ := exists_docs ha
  obtain ⟨-, rfl⟩ | ⟨b, _, hb, h⟩ := h
  · exact ⟨⟨docs, trueWord, trueWord, false, false, []⟩, _, _, rfl, hdocs.skipped⟩
  obtain ⟨name, hname, -⟩ := match?_identifier.mp hb
  have hnamed : Spells (docs.map .docLine ++ [.word name]) c (skipBlank b) :=
    (hdocs.trans hname.spells).skipped
  obtain h | ⟨d, _, hd, h⟩ := h
  · obtain rfl | ⟨type, isList, htype⟩ := exists_type_of_tried h
    · exact ⟨⟨docs, name, trueWord, false, false, []⟩, _, [.type trueWord false false], by
        simp [FieldDef.tokens], hnamed⟩
    · exact ⟨⟨docs, name, type, isList, false, []⟩, _, [], by simp [FieldDef.tokens],
        hnamed.append htype.spells⟩
  · obtain ⟨type, isList, isOptional, htype⟩ := exists_type_of_match? hd
    have hat : text "@" = word Mark.atSign.text := rfl
    have hattributes := begins_of_tried_many (fun _ _ _ => exists_attribute hat)
      (fun _ => begins_of_tried_attribute hat) h
    exact hattributes.after (hnamed.append htype.spells.skipped) fun as =>
      ⟨⟨docs, name, type, isList, isOptional, as⟩, [], by simp [FieldDef.tokens]⟩

/-! ## Models -/

theorem begins_of_tried_item (h : modelItem.Tried skipBlank c p) : Begins ItemDef.tokens c p := by
  obtain h | ⟨-, h⟩ := h
  · have hmark : text "@@" = word Mark.doubleAt.text := rfl
    exact (begins_of_tried_attribute hmark h).after (.refl c) fun a =>
      ⟨.modelAttribute a, [], by simp [ItemDef.tokens]⟩
  · exact (begins_of_tried_field h).after (.refl c) fun f =>
      ⟨.field f, [], by simp [ItemDef.tokens]⟩

/-- The parts of a model are tried only where a model has begun. -/
theorem begins_of_tried_model (h : model.Tried skipBlank c p) : Begins ModelDef.tokens c p := by
  obtain ⟨-, rfl⟩ | h | ⟨a, _, ha, h⟩ := h
  · exact begins_refl ⟨[], trueWord, []⟩ p
  · exact (begins_of_tried_docs h).after (.refl c) fun docs => ⟨⟨docs, trueWord, []⟩, _, rfl⟩
  obtain ⟨docs, hdocs⟩ := exists_docs ha
  obtain ⟨-, rfl⟩ | ⟨b, _, hb, h⟩ := h
  · exact ⟨⟨docs, trueWord, []⟩, _, _, rfl, hdocs.skipped⟩
  have hkeyword := (hdocs.trans (match?_modelKeyword.mp hb).1.spells).skipped
  obtain ⟨-, rfl⟩ | ⟨b', _, hb', h⟩ := h
  · exact ⟨⟨docs, trueWord, []⟩, _, [.word trueWord, .mark .openBrace, .mark .closeBrace], by
      simp [ModelDef.tokens], hkeyword⟩
  obtain ⟨name, hname, -⟩ := match?_identifier.mp hb'
  obtain ⟨⟨⟩⟩ | ⟨d, _, hd, h⟩ := h
  have hopen := (hkeyword.append hname.spells).trans (spells_mark (m := .openBrace) rfl hd)
  obtain h | ⟨_, _, _, ⟨⟩⟩ := h
  have hitems := begins_of_tried_many (fun _ _ _ => exists_item) (fun _ => begins_of_tried_item) h
  exact hitems.after hopen.skipped fun is =>
    ⟨⟨docs, name, is⟩, [.mark .closeBrace], by simp [ModelDef.tokens]⟩

theorem begins_of_tried_schema (h : schema.Tried skipBlank c p) :
    Begins (fun ms : List ModelDef => ms.flatMap ModelDef.tokens) c p := by
  obtain ⟨-, rfl⟩ | ⟨⟨⟩⟩ | ⟨a, _, ha, h⟩ := h
  · exact begins_refl [] p
  have hempty : Spells [] c (skipBlank a) := by
    obtain rfl := Cursor.passes_nil.mp (match?_word.mp ha).1
    exact .skip a
  obtain h | ⟨b, _, hb, ⟨-, rfl⟩ | ⟨⟨⟩⟩⟩ := h
  · exact (begins_of_tried_many (fun _ _ _ => exists_model)
      (fun _ => begins_of_tried_model) h).after
      hempty fun ms => ⟨ms, [], by simp⟩
  · obtain ⟨ms, hms⟩ := exists_spells_of_many (by decide) (fun _ _ _ => exists_model) hb
    exact ⟨ms, _, [], by simp, hempty.append hms.skipped⟩

/-! ## Continuations -/

/-- Tokens, each on a line of its own. -/
def lines (ts : List Token) : List Char := ts.flatMap fun t => '\n' :: t.text

theorem startsLine_lines (ts : List Token) : StartsLine (lines ts) := by
  cases ts <;> simp [lines, Stops, isLineEnd]

theorem layout_lines (ts : List Token) : Layout ts (lines ts) := by
  induction ts with
  | nil => exact .nil
  | cons t ts ih =>
    exact .blank (by decide) (.token (t.endsBefore_nil.append (startsLine_lines ts)) ih)

/-- The text matches the grammar of schemas. -/
def Matches (cs : List Char) : Prop := (schema.match? skipBlank (.start cs)).isSome = true

theorem matches_of_layout {cs : List Char} {ms : List ModelDef}
    (h : Layout (ms.flatMap ModelDef.tokens) cs) : Matches cs := by
  obtain ⟨ns, hns, -⟩ := readsModels_of_layout h
  obtain ⟨d, n, hmatch, -⟩ := hns.exists_match?
  exact Option.isSome_iff_exists.mpr ⟨_, hmatch⟩

/-- Begun definitions can be finished. -/
theorem exists_matches_append {cs : List Char}
    (h : Begins (fun ms : List ModelDef => ms.flatMap ModelDef.tokens) (.start cs) p) :
    ∃ before after t, cs = before ++ after ∧ byteLength before = p.offset ∧
      Matches (before ++ t) := by
  obtain ⟨ms, us, vs, hms, w, hw, hlayout⟩ := h
  have hall := hlayout vs (lines vs) (.inl (startsLine_lines vs)) (layout_lines vs)
  rw [← hms] at hall
  refine ⟨w, p.rest, lines vs, hw.rest, ?_, matches_of_layout hall⟩
  rw [hw.offset, Cursor.start, Nat.zero_add]

/-! ## Finished models -/

/-- The text matches the grammar, and it ends where its last model does. -/
def EndsWithModel (cs : List Char) : Prop :=
  ∃ d n ns m, schema.match? skipBlank (.start cs) = some (d, [n]) ∧
    n.children.filter (·.symbol == .model) = ns ++ [m] ∧ m.span.stop = byteLength cs

theorem eq_nil_of_byteLength {cs : List Char} (h : byteLength cs = 0) : cs = [] := by
  cases cs with
  | nil => rfl
  | cons c cs =>
    rw [byteLength_cons] at h
    have hpos := c.utf8Size_pos
    omega

theorem exists_last_round {ns : List Part} {n : Part}
    (h : Rounds model skipBlank c (ns ++ [n]) d) :
    ∃ b w, c.Passes w b ∧ model.match? skipBlank b = some (d, [n]) := by
  generalize hall : ns ++ [n] = ms at h
  induction h generalizing ns with
  | none => simp at hall
  | @more b c d ms others first rounds ih =>
    obtain ⟨gap, hgap⟩ := forward_skipBlank b
    obtain ⟨v, hv, -⟩ := match?_passes forward_skipBlank first
    obtain ⟨_, -, rfl⟩ := match?_phrase.mp first
    cases ns with
    | cons m ns =>
      obtain ⟨b', w, hw, hlast⟩ := ih (List.cons.inj hall).2
      exact ⟨b', _, (hgap.trans hv).trans hw, hlast⟩
    | nil =>
      obtain ⟨rfl, hnil⟩ := List.cons.inj hall
      cases rounds with
      | none => exact ⟨_, gap, hgap, first⟩
      | more first' _ =>
        obtain ⟨_, -, rfl⟩ := match?_phrase.mp first'
        cases hnil

/-- Where the models of a text end with the text, its last character closes the last one. -/
theorem ends_of_rounds {cs : List Char} {ns : List Part} {n : Part}
    (h : Rounds model skipBlank (.start cs) (ns ++ [n]) d) (hstop : n.span.stop = byteLength cs) :
    d.rest = [] ∧ cs.getLast? = some '\x7d' := by
  obtain ⟨b, v, hv, hlast⟩ := exists_last_round h
  obtain ⟨w, hw⟩ := passes_closeBrace hlast
  obtain ⟨_, -, hn⟩ := match?_phrase.mp hlast
  obtain rfl := List.singleton_inj.mp hn
  have hall := hv.trans hw
  have hcs : cs = v ++ (w ++ ['\x7d']) ++ d.rest := hall.rest
  have hlength : d.offset = byteLength cs := hstop
  have hnil : d.rest = [] := by
    refine eq_nil_of_byteLength ?_
    rw [hall.offset, hcs] at hlength
    simp only [byteLength_append, Cursor.start] at hlength
    omega
  rw [hcs, hnil, List.append_nil, ← List.append_assoc]
  exact ⟨rfl, List.getLast?_concat⟩

/-- Models of a text that ends with the last of them are read in front of everything. -/
theorem EndsWithModel.rounds {cs : List Char} (h : EndsWithModel cs) :
    ∃ (d : Cursor) (ns : List Part), d.offset = byteLength cs ∧ ∀ x,
      Rounds model skipBlank (.start (cs ++ x)) ns (d.followedBy x) := by
  obtain ⟨d, n, ns, m, hmatch, hchildren, hstop⟩ := h
  obtain ⟨ms, hms⟩ := exists_readsModels hmatch
  obtain ⟨_, _, hmatch', hchildren'⟩ := hms.exists_match?
  obtain ⟨rfl, hn⟩ := Prod.mk.inj (Option.some.inj (hmatch.symm.trans hmatch'))
  obtain rfl := List.singleton_inj.mp hn
  obtain rfl := hchildren.symm.trans hchildren'
  obtain ⟨ds, hlayout, hreads⟩ := hms.exists_layout
  have hds : ds ≠ [] := by
    rintro rfl
    simp at hreads
  have hclosed : cs.getLast? = some '\x7d' := by
    obtain ⟨d, hrounds, -⟩ := hms
    exact (ends_of_rounds hrounds hstop).2
  obtain ⟨d, ns', hrounds, -, hd⟩ :=
    rounds_of_models (hlayout.laid_closed (ModelDef.getLast?_flatMap_tokens hds) hclosed)
  have hall := rounds_of_followedBy trivial hrounds
  obtain rfl := hms.unique ⟨d, hall, hd.skipBlank_eq_nil⟩
  obtain ⟨w, hw⟩ := hall.passes forward_skipBlank fun h =>
    (match?_passes forward_skipBlank h).imp fun _ hw => hw.1
  have hcs : cs = w ++ d.rest := hw.rest
  rw [(ends_of_rounds hall hstop).1, List.append_nil] at hcs
  refine ⟨d, _, ?_, fun x => hrounds x trivial⟩
  rw [hw.offset, hcs, Cursor.start, Nat.zero_add]

/-- Models that are read are behind the place that is reported. -/
theorem offset_le_failure {cs : List Char} {ns : List Part}
    (h : Rounds model skipBlank (.start cs) ns d)
    (hnone : schema.match? skipBlank (.start cs) = none) :
    d.offset ≤ schema.failure skipBlank (.start cs) := by
  have hempty : (text "").match? skipBlank (.start cs) = some (.start cs, []) :=
    match?_word.mpr ⟨.refl _, rfl⟩
  cases hmany : (many model).match? skipBlank (skipBlank (.start cs)) with
  | none =>
    rw [match?] at hmany
    split at hmany <;> cases hmany
  | some found =>
    obtain ⟨b, ms⟩ := found
    have hle : d.offset ≤ (skipBlank b).offset := by
      obtain ⟨hstop, rfl, -⟩ | ⟨a, ms₁, ms₂, first, others, hstop, -⟩ :=
        (match?_many forward_skipBlank (by decide)).mp hmany
      · cases h with
        | none => exact Nat.zero_le _
        | more first _ => cases hstop.symm.trans first
      · obtain ⟨more, hmore⟩ := h.exists_others (.more first others) hstop
        obtain ⟨v, hv⟩ := hmore.passes forward_skipBlank fun h =>
          (match?_passes forward_skipBlank h).imp fun _ hw => hw.1
        obtain ⟨w, hw⟩ := forward_skipBlank b
        rw [(hv.trans hw).offset]
        exact Nat.le_add_right _ _
    have hend : (phrase Symbol.endOfText atEnd).match? skipBlank (skipBlank b) = none := by
      rw [Option.eq_none_iff_forall_ne_some]
      rintro ⟨d, ns⟩ hend
      have hmatch : schema.match? skipBlank (.start cs) = some (d, _) :=
        match?_phrase.mpr ⟨_, match?_seq.mpr ⟨_, _, _, hempty,
          match?_seq.mpr ⟨_, _, _, hmany, hend, rfl⟩, rfl⟩, rfl⟩
      cases hnone.symm.trans hmatch
    rw [match?, Option.map_eq_none_iff] at hend
    calc d.offset ≤ (skipBlank b).offset := hle
      _ ≤ (phrase Symbol.endOfText atEnd).failure skipBlank (skipBlank b) := offset_le_phrase hend
      _ ≤ (seq (many model) (phrase .endOfText atEnd)).failure skipBlank (skipBlank (.start cs)) :=
        failure_le_seq hmany
      _ ≤ (Expr.sequence [text "", many model, phrase .endOfText atEnd]).failure skipBlank
          (.start cs) := failure_le_seq hempty
      _ ≤ schema.failure skipBlank (.start cs) := failure_le_phrase

end SchemaText

open SchemaText

/-- **Syntax errors are located soundly.** A text that does not match the grammar is reported with
    no length, at a place between two of its characters. What stands before that place can be
    continued to a text that matches. No text that ends with a model and matches by itself, and with
    which the text begins, goes beyond that place. -/
theorem parse_syntaxError (text : String) (h : ¬Matches text.toList) :
    ∃ before after, text.toList = before ++ after ∧
      Schema.parse text = .error (.malformedText .unexpected (byteLength before) 0) ∧
      (∃ t, Matches (before ++ t)) ∧
      ∀ models rest, text.toList = models ++ rest → EndsWithModel models →
        byteLength models ≤ byteLength before := by
  have hnone : schema.match? skipBlank (.start text.toList) = none :=
    Option.not_isSome_iff_eq_none.mp h
  have hparse : Schema.parse text = .error (.malformedText .unexpected
      (schema.failure skipBlank (.start text.toList)) 0) := by
    unfold Schema.parse matchPart
    rw [hnone]
  obtain ⟨p, hbegins, hoffset⟩ : ∃ p,
      Begins (fun ms : List ModelDef => ms.flatMap ModelDef.tokens) (.start text.toList) p ∧
        p.offset = schema.failure skipBlank (.start text.toList) := by
    obtain hzero | ⟨p, hp, hoffset⟩ := schema.reached_failure skipBlank (.start text.toList)
    · exact ⟨_, begins_refl [] _, hzero.symm⟩
    · exact ⟨p, begins_of_tried_schema hp, hoffset⟩
  obtain ⟨before, after, t, htext, hbefore, hmatches⟩ := exists_matches_append hbegins
  refine ⟨before, after, htext, ?_, ⟨t, hmatches⟩, fun models rest hsplit hmodels => ?_⟩
  · rw [hparse, hbefore, hoffset]
  · obtain ⟨d, ns, hd, hrounds⟩ := hmodels.rounds
    have hread := hrounds rest
    rw [← hsplit] at hread
    have hle : (d.followedBy rest).offset ≤ _ := offset_le_failure hread hnone
    rwa [hbefore, hoffset, ← hd]

/-- A finished model. -/
def finishedText : String := "model Shelf \x7b id Int \x7d"

/-- The finished model, and another one without a name. -/
def unnamedText : String := finishedText ++ "\nmodel \x7b"

theorem parse_syntaxError_unnamedText :
    ¬Matches unnamedText.toList ∧ EndsWithModel finishedText.toList ∧
      Schema.parse unnamedText = .error (.malformedText .unexpected 29 0) ∧
      ∃ before after, unnamedText.toList = before ++ after ∧ byteLength before = 29 ∧
        (∃ t, Matches (before ++ t)) ∧ byteLength finishedText.toList ≤ byteLength before := by
  have hnone : ¬Matches unnamedText.toList := by
    unfold Matches
    decide +kernel
  have hmodel : EndsWithModel finishedText.toList := ⟨_, _, [], _, rfl, rfl, rfl⟩
  have hparse : Schema.parse unnamedText = .error (.malformedText .unexpected 29 0) := rfl
  obtain ⟨before, after, htext, herror, hcontinued, hmodels⟩ := parse_syntaxError unnamedText hnone
  have hoffset : byteLength before = 29 := by
    rw [hparse] at herror
    injection herror with herror
    injection herror with _ hoffset
    exact hoffset.symm
  exact ⟨hnone, hmodel, hparse, before, after, htext, hoffset, hcontinued,
    hmodels _ "\nmodel \x7b".toList (by rw [unnamedText, String.toList_append]) hmodel⟩

end SchemaFilter
