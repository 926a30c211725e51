import SchemaFilter.Proofs.Schema.TokenRules

/-!
# What the grammar reads are layouts

Whatever a rule of the grammar reads consists of the tokens of a definition. The rules are taken
from the inside to the outside; each needs only that its parts have matched, not that other
alternatives have failed.

Main definitions and results:

* `Spells`: tokens stand between two cursors, with blanks and comments between them;
* `exists_attribute`, `exists_field`, `exists_model`: what the rules read are tokens of definitions.
-/

namespace SchemaFilter.SchemaText

open Grammar Grammar.Expr

/-- A text may stand after the cursor as far as the next character tells. -/
def Follows (d : Cursor) (x : List Char) : Prop := StartsLine x ∨ x.head? = d.rest.head?

/-- The tokens stand between the cursors: the text there, with a layout after it, is a layout that
    starts with them. -/
def Spells (ts : List Token) (c d : Cursor) : Prop :=
  ∃ w, c.Passes w d ∧ ∀ us x, Follows d x → Layout us x → Layout (ts ++ us) (w ++ x)

variable {b c d : Cursor} {ns : List Part} {ts us : List Token}

theorem Spells.refl (c : Cursor) : Spells [] c c := ⟨[], .refl c, fun _ _ _ h => h⟩

theorem Spells.skip (c : Cursor) : Spells [] c (skipBlank c) := by
  obtain ⟨g, hg, hlayout⟩ := exists_gap c
  refine ⟨g, hg, fun us x hx h => hlayout us x (fun hnil => ?_) h⟩
  rcases hx with hx | hx
  · exact hx
  · rw [hnil, List.head?_nil, List.head?_eq_none_iff] at hx
    simp [hx, Stops]

theorem Spells.append (h : Spells ts b c) (h' : Spells us c d) : Spells (ts ++ us) b d := by
  obtain ⟨v, hv, hlayout⟩ := h
  obtain ⟨w, hw, hlayout'⟩ := h'
  refine ⟨v ++ w, hv.trans hw, fun vs x hx hvs => ?_⟩
  have hfollows : Follows c (w ++ x) := by
    cases w with
    | nil =>
      obtain rfl := Cursor.passes_nil.mp hw
      exact hx
    | cons ch w => exact .inr (by rw [hw.rest]; rfl)
  rw [List.append_assoc, List.append_assoc]
  exact hlayout _ _ hfollows (hlayout' vs x hx hvs)

theorem Spells.skipped (h : Spells ts c d) : Spells ts c (skipBlank d) := by
  simpa using h.append (.skip d)

theorem Spells.trans (h : Spells ts b c) (h' : Spells us (skipBlank c) d) :
    Spells (ts ++ us) b d :=
  h.skipped.append h'

theorem Token.Between.spells {t : Token} (h : t.Between c d) : Spells [t] c d := by
  refine ⟨t.text, h.passes, fun us x hx hus => .token ?_ hus⟩
  rcases hx with hx | hx
  · exact t.endsBefore_nil.append hx
  · exact h.ends.congr hx

theorem Spells.layout (h : Spells ts c d) (hd : Layout us d.rest) :
    Layout (ts ++ us) c.rest := by
  obtain ⟨w, hw, hlayout⟩ := h
  rw [hw.rest]
  exact hlayout us _ (.inr rfl) hd

/-- The tokens of repeated parts are those of some definitions one after the other. -/
theorem exists_spells_of_rounds {α : Type} {e : Expr Symbol} {tokens : α → List Token}
    (he : ∀ c d ns, e.match? skipBlank c = some (d, ns) → ∃ x, Spells (tokens x) c d)
    (h : Rounds e skipBlank c ns d) : ∃ xs : List α, Spells (xs.flatMap tokens) c d := by
  induction h with
  | none c => exact ⟨[], .refl c⟩
  | more first _ ih =>
    obtain ⟨x, hx⟩ := he _ _ _ first
    obtain ⟨xs, hxs⟩ := ih
    exact ⟨x :: xs, (Spells.skip _).append (hx.append hxs)⟩

theorem exists_spells_of_many {α : Type} {e : Expr Symbol} {tokens : α → List Token}
    (hlength : 0 < e.leastLength)
    (he : ∀ c d ns, e.match? skipBlank c = some (d, ns) → ∃ x, Spells (tokens x) c d)
    (h : (many e).match? skipBlank c = some (d, ns)) :
    ∃ xs : List α, Spells (xs.flatMap tokens) c d := by
  obtain ⟨-, rfl, -⟩ | ⟨b, ns₁, ns₂, first, others, -⟩ :=
    (match?_many forward_skipBlank hlength).mp h
  · exact ⟨[], .refl d⟩
  · obtain ⟨x, hx⟩ := he _ _ _ first
    obtain ⟨xs, hxs⟩ := exists_spells_of_rounds he others
    exact ⟨x :: xs, hx.append hxs⟩

/-! ## Attributes -/

theorem exists_argument (h : argument.match? skipBlank c = some (d, ns)) :
    ∃ a : ArgumentDef, Spells [a.token] c d := by
  obtain ⟨a, hd, -⟩ := match?_argument.mp h
  exact ⟨a, hd.spells⟩

theorem spells_mark {m : Mark} {mark : String} (hmark : text mark = word m.text)
    (h : (text mark).match? skipBlank c = some (d, ns)) : Spells [.mark m] c d := by
  rw [hmark, match?_mark] at h
  exact h.1.spells

theorem exists_nextArgument (h : (seq (text ",") argument).match? skipBlank c = some (d, ns)) :
    ∃ a : ArgumentDef, Spells [.mark .comma, a.token] c d := by
  obtain ⟨b, _, _, hb, hd, -⟩ := match?_seq.mp h
  obtain ⟨a, ha⟩ := exists_argument hd
  exact ⟨a, (spells_mark (m := .comma) rfl hb).trans ha⟩

theorem exists_arguments (h : arguments.match? skipBlank c = some (d, ns)) :
    ∃ as, Spells (.mark .openParen :: (argumentTokens as ++ [.mark .closeParen])) c d := by
  have hopen : text "(" = word Mark.openParen.text := rfl
  have hclose : text ")" = word Mark.closeParen.text := rfl
  simp only [arguments, Expr.sequence, match?_phrase, match?_seq, match?_optional, hopen, hclose,
    match?_mark] at h
  obtain ⟨_, ⟨a, _, _, ⟨ha, -⟩, ⟨b, _, _, hlist, ⟨hd, -⟩, -⟩, -⟩, -⟩ := h
  obtain ⟨a', _, _, hfirst, hothers, -⟩ | ⟨-, rfl, -⟩ := hlist
  · obtain ⟨x, hx⟩ := exists_argument hfirst
    obtain ⟨xs, hxs⟩ := exists_spells_of_many (by decide) (fun _ _ _ => exists_nextArgument) hothers
    have hspells := ha.spells.trans ((hx.trans hxs).trans hd.spells)
    exact ⟨x :: xs, by simpa [argumentTokens] using hspells⟩
  · exact ⟨[], ha.spells.trans ((Spells.refl _).trans hd.spells)⟩

theorem exists_attribute {s : Symbol} {m : Mark} {mark : String} (hmark : text mark = word m.text)
    (h : (markedAttribute s mark).match? skipBlank c = some (d, ns)) :
    ∃ a : AttributeDef, Spells (a.tokens m) c d := by
  simp only [markedAttribute, Expr.sequence, match?_phrase, match?_seq, match?_optional, hmark,
    match?_mark, match?_identifier] at h
  obtain ⟨_, ⟨a, _, _, ⟨ha, -⟩, ⟨b, _, _, ⟨n, hb, -⟩, hlist, -⟩, -⟩, -⟩ := h
  obtain hlist | ⟨-, rfl, -⟩ := hlist
  · obtain ⟨as, has⟩ := exists_arguments hlist
    exact ⟨⟨n, some as⟩, ha.spells.trans (hb.spells.trans has)⟩
  · exact ⟨⟨n, none⟩, ha.spells.trans (hb.spells.trans (.refl _))⟩

/-! ## Fields and models -/

theorem exists_docs (h : (optional documentation).match? skipBlank c = some (d, ns)) :
    ∃ docs : List LineText, Spells (docs.map .docLine) c d := by
  have hline : ∀ c d ns, docLine.match? skipBlank c = some (d, ns) →
      ∃ l : LineText, Spells [.docLine l] c d := by
    intro c d ns h
    obtain ⟨l, hd, -⟩ := match?_docLine.mp h
    exact ⟨l, hd.spells⟩
  simp only [documentation, several, match?_optional, match?_phrase, match?_seq] at h
  obtain ⟨_, ⟨b, _, _, hfirst, hothers, -⟩, -⟩ | ⟨-, rfl, -⟩ := h
  · obtain ⟨l, hl⟩ := hline _ _ _ hfirst
    obtain ⟨ls, hls⟩ := exists_spells_of_many (by decide) hline hothers
    exact ⟨l :: ls, by simpa [List.map_eq_flatMap] using hl.trans hls⟩
  · exact ⟨[], .refl d⟩

theorem exists_field (h : field.match? skipBlank c = some (d, ns)) :
    ∃ f : FieldDef, Spells f.tokens c d := by
  simp only [field, Expr.sequence, match?_phrase, match?_seq, match?_identifier] at h
  obtain ⟨_, ⟨a, _, _, hdocs, ⟨b, _, _, ⟨n, hn, -⟩, ⟨b', _, _, htype, hattributes, -⟩, -⟩, -⟩, -⟩ :=
    h
  obtain ⟨docs, hdocs⟩ := exists_docs hdocs
  obtain ⟨type, isList, isOptional, htype⟩ := exists_type_of_match? htype
  obtain ⟨as, has⟩ := exists_spells_of_many (by decide)
    (fun _ _ _ => exists_attribute (show text "@" = word Mark.atSign.text from rfl)) hattributes
  exact ⟨⟨docs, n, type, isList, isOptional, as⟩,
    hdocs.trans (hn.spells.trans (htype.spells.trans has))⟩

theorem exists_item (h : modelItem.match? skipBlank c = some (d, ns)) :
    ∃ i : ItemDef, Spells i.tokens c d := by
  obtain h | ⟨-, h⟩ := match?_choice.mp h
  · obtain ⟨a, ha⟩ := exists_attribute (show text "@@" = word Mark.doubleAt.text from rfl) h
    exact ⟨.modelAttribute a, ha⟩
  · obtain ⟨f, hf⟩ := exists_field h
    exact ⟨.field f, hf⟩

theorem exists_model (h : model.match? skipBlank c = some (d, ns)) :
    ∃ m : ModelDef, Spells m.tokens c d := by
  have hopen : text "\x7b" = word Mark.openBrace.text := rfl
  have hclose : text "\x7d" = word Mark.closeBrace.text := rfl
  simp only [model, Expr.sequence, match?_phrase, match?_seq, match?_identifier,
    match?_modelKeyword, hopen, hclose, match?_mark] at h
  obtain ⟨_, ⟨a, _, _, hdocs, ⟨b, _, _, ⟨hkeyword, -⟩, ⟨b', _, _, ⟨n, hn, -⟩, ⟨b₂, _, _,
    ⟨hbrace, -⟩, ⟨b₃, _, _, hitems, ⟨hd, -⟩, -⟩, -⟩, -⟩, -⟩, -⟩, -⟩ := h
  obtain ⟨docs, hdocs⟩ := exists_docs hdocs
  obtain ⟨is, his⟩ := exists_spells_of_many (by decide) (fun _ _ _ => exists_item) hitems
  exact ⟨⟨docs, n, is⟩, hdocs.trans (hkeyword.spells.trans
    (hn.spells.trans (hbrace.spells.trans (his.trans hd.spells))))⟩

/-- A model ends with its closing brace. -/
theorem passes_closeBrace (h : model.match? skipBlank c = some (d, ns)) :
    ∃ w, c.Passes (w ++ ['\x7d']) d := by
  have hclose : text "\x7d" = word Mark.closeBrace.text := rfl
  have hpasses : ∀ {e : Expr Symbol} {c d : Cursor} {ns : List Part},
      e.match? skipBlank c = some (d, ns) → ∃ w, c.Passes w (skipBlank d) := by
    intro e c d ns h
    obtain ⟨v, hv, -⟩ := match?_passes forward_skipBlank h
    obtain ⟨w, hw⟩ := forward_skipBlank d
    exact ⟨v ++ w, hv.trans hw⟩
  simp only [model, Expr.sequence, match?_phrase, match?_seq, hclose, match?_mark] at h
  obtain ⟨_, ⟨a, _, _, ha, ⟨b, _, _, hb, ⟨b', _, _, hb', ⟨b₂, _, _, hb₂, ⟨b₃, _, _, hb₃,
    ⟨hd, -⟩, -⟩, -⟩, -⟩, -⟩, -⟩, -⟩ := h
  obtain ⟨u, hu⟩ := hpasses ha
  obtain ⟨u₁, hu₁⟩ := hpasses hb
  obtain ⟨u₂, hu₂⟩ := hpasses hb'
  obtain ⟨u₃, hu₃⟩ := hpasses hb₂
  obtain ⟨u₄, hu₄⟩ := hpasses hb₃
  exact ⟨_, ((((hu.trans hu₁).trans hu₂).trans hu₃).trans hu₄).trans hd.passes⟩

end SchemaFilter.SchemaText
