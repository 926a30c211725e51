import SchemaFilter.Proofs.Schema.Spelling
import SchemaFilter.Proofs.Schema.Tails

/-!
# Layouts are read

Every rule of the grammar reads the tokens of a definition, and gives a part of it. The choices are
decided by the token that comes next, so a rule needs to know only the start of what follows its
tokens.

A text may go on after what is read, and nothing that is read in it changes: `Reads` and `Fails`
speak of the text with every tail of some kind. What a rule gives is the same part for all of them.

Main definitions and results:

* `Reads` and `Fails`: what a rule does at a cursor, whatever tail comes after the text;
* `reads_attribute`, `reads_field`, `reads_model`: the rules read the definitions.
-/

namespace SchemaFilter.SchemaText

open Grammar Grammar.Expr

variable {q : List Char → Prop}

/-- The rule reads the parts between the cursors, whatever tail comes after the text. -/
def Reads (q : List Char → Prop) (skip : Cursor → Cursor) (e : Expr Symbol) (c d : Cursor)
    (ns : List Part) : Prop :=
  ∀ x, q x → e.match? skip (c.followedBy x) = some (d.followedBy x, ns)

/-- The rule does not match at the cursor, whatever tail comes after the text. -/
def Fails (q : List Char → Prop) (skip : Cursor → Cursor) (e : Expr Symbol) (c : Cursor) : Prop :=
  ∀ x, q x → e.match? skip (c.followedBy x) = none

/-- What is skipped at the cursor does not depend on the tail. -/
def Keeps (q : List Char → Prop) (skip : Cursor → Cursor) (c : Cursor) : Prop :=
  ∀ x, q x → skip (c.followedBy x) = (skip c).followedBy x

/-- Where the tokens come next and then the others, the rule reads a part of what they define. -/
def ReadsAhead (q : List Char → Prop) (e : Expr Symbol) (ts : List Token) (readAs : Part → Prop)
    (us : List Token) : Prop :=
  ∀ c : Cursor, Ready q (ts ++ us) c.rest →
    ∃ d n, Reads q skipBlank e c d [n] ∧ readAs n ∧ Laid q us d.rest

variable {skip : Cursor → Cursor} {e e₁ e₂ : Expr Symbol} {b c d : Cursor} {ms ns : List Part}
  {s : Symbol}

/-! ## Forms of expressions -/

theorem Reads.seq (h₁ : Reads q skip e₁ b c ms) (hkeeps : Keeps q skip c)
    (h₂ : Reads q skip e₂ (skip c) d ns) : Reads q skip (seq e₁ e₂) b d (ms ++ ns) := fun x hx =>
  match?_seq.mpr ⟨_, ms, ns, h₁ x hx, by rw [hkeeps x hx]; exact h₂ x hx, rfl⟩

theorem Fails.seq_left (h : Fails q skip e₁ c) : Fails q skip (seq e₁ e₂) c := fun x hx => by
  rw [match?, h x hx]

theorem Fails.seq_right (h₁ : Reads q skip e₁ b c ms) (hkeeps : Keeps q skip c)
    (h₂ : Fails q skip e₂ (skip c)) : Fails q skip (.seq e₁ e₂) b := fun x hx => by
  simp only [match?, h₁ x hx, hkeeps x hx, h₂ x hx]

theorem Reads.choice_left (h : Reads q skip e₁ c d ns) : Reads q skip (choice e₁ e₂) c d ns :=
  fun x hx => match?_choice.mpr (.inl (h x hx))

theorem Reads.choice_right (h₁ : Fails q skip e₁ c) (h₂ : Reads q skip e₂ c d ns) :
    Reads q skip (choice e₁ e₂) c d ns := fun x hx => match?_choice.mpr (.inr ⟨h₁ x hx, h₂ x hx⟩)

theorem Fails.choice (h₁ : Fails q skip e₁ c) (h₂ : Fails q skip e₂ c) :
    Fails q skip (.choice e₁ e₂) c := fun x hx => by
  simp only [match?, h₁ x hx, h₂ x hx]

theorem Reads.optional_some (h : Reads q skip e c d ns) : Reads q skip (optional e) c d ns :=
  fun x hx => match?_optional.mpr (.inl (h x hx))

theorem Reads.optional_none (h : Fails q skip e c) : Reads q skip (optional e) c c [] :=
  fun x hx => match?_optional.mpr (.inr ⟨h x hx, rfl, rfl⟩)

theorem Reads.phrase (h : Reads q skip e c d ns) :
    Reads q skip (.phrase s e) c d [.between s c d ns] := fun x hx =>
  match?_phrase.mpr ⟨ns, h x hx, by rw [Node.between_followedBy]⟩

theorem Fails.phrase (h : Fails q skip e c) : Fails q skip (.phrase s e) c := fun x hx => by
  rw [match?, h x hx, Option.map_none]

theorem Reads.compact (h : Reads q id e c d ns) :
    Reads q skip (.compact s e) c d [.between s c d ns] := fun x hx =>
  match?_compact.mpr ⟨ns, h x hx, by rw [Node.between_followedBy]⟩

theorem keeps_id (c : Cursor) : Keeps q id c := fun _ _ => rfl

/-! ## Tokens -/

variable {t : Token} {ts us : List Token} {cs : List Char}

theorem Laid.keeps (h : Laid q ts c.rest) (hts : ts ≠ []) : Keeps q skipBlank c :=
  fun _ hx => h.skipBlank_followedBy hts hx

/-- At a token nothing is skipped. -/
theorem Token.Between.skipBlank_eq (h : t.Between c d) : skipBlank c = c := by
  rw [skipBlank, h.passes.rest, skipFrom_token, ← h.passes.rest]

/-- A rule that starts with another token does not match. -/
theorem Token.Stands.fails (h : t.Stands q c d)
    (he : ∀ {c d ns}, e.match? skip c = some (d, ns) →
      ∃ u : Token, (∃ b, u.Between c b) ∧ u.start ≠ t.start) : Fails q skip e c := by
  intro x hx
  rw [Option.eq_none_iff_forall_ne_some]
  rintro ⟨d', ms⟩ hmatch
  obtain ⟨u, ⟨b, hb⟩, hne⟩ := he hmatch
  exact hne (hb.start_eq (h.followedBy hx))

theorem reads_mark {m : Mark} (h : (Token.mark m).Stands q c d) :
    Reads q skip (word m.text) c d [] :=
  fun _ hx => (match?_mark m).mpr ⟨h.followedBy hx, rfl⟩

theorem fails_mark {m : Mark} (h : t.Stands q c d) (ht : t.start ≠ .sign m.first) :
    Fails q skip (word m.text) c :=
  h.fails fun hmatch => ⟨.mark m, ⟨_, ((match?_mark m).mp hmatch).1⟩, ht.symm⟩

theorem reads_nameToken {n : Name} (h : (Token.word n).Stands q c d) (s : Symbol) :
    Reads q skip (token s name) c d [.between s c d []] := fun x hx =>
  (match?_nameToken s).mpr ⟨n, h.followedBy hx, by rw [Node.between_followedBy]⟩

theorem fails_identifier (h : t.Stands q c d) (ht : t.start ≠ .letter) :
    Fails q skip identifier c :=
  h.fails fun hmatch =>
    let ⟨n, hn, _⟩ := match?_identifier.mp hmatch
    ⟨.word n, ⟨_, hn⟩, ht.symm⟩

theorem reads_modelKeyword (h : (Token.word modelWord).Stands q c d) :
    Reads q skip modelKeyword c d [.between .modelKeyword c d []] := fun x hx =>
  match?_modelKeyword.mpr ⟨h.followedBy hx, by rw [Node.between_followedBy]⟩

theorem reads_docLine {l : LineText} (h : (Token.docLine l).Stands q c d) :
    Reads q skip docLine c d [.between .docLine c d []] := fun x hx =>
  match?_docLine.mpr ⟨l, h.followedBy hx, by rw [Node.between_followedBy]⟩

theorem fails_docLine (h : t.Stands q c d) (ht : t.start ≠ .slash) : Fails q skip docLine c :=
  h.fails fun hmatch =>
    let ⟨l, hl, _⟩ := match?_docLine.mp hmatch
    ⟨.docLine l, ⟨_, hl⟩, ht.symm⟩

theorem reads_argument {a : ArgumentDef} (h : a.token.Stands q c d) :
    Reads q skip argument c d [.between a.symbol c d []] := fun x hx =>
  match?_argument.mpr ⟨a, h.followedBy hx, by rw [Node.between_followedBy]⟩

theorem fails_argument {m : Mark} (h : (Token.mark m).Stands q c d) : Fails q skip argument c :=
  h.fails fun hmatch =>
    let ⟨a, ha, _⟩ := match?_argument.mp hmatch
    ⟨a.token, ⟨_, ha⟩, by cases a <;> simp [ArgumentDef.token, Token.start]⟩

theorem Token.Stands.keeps (h : t.Stands q c d) : Keeps q skipBlank c := fun x hx => by
  rw [(h.followedBy hx).skipBlank_eq, h.toBetween.skipBlank_eq]

theorem Token.Between.isToken (h : t.Between c d) (s : Symbol) (ns : List Part) :
    IsToken s t.text (.between s c d ns) := ⟨rfl, h.passes.textTo⟩

/-! ## Repetitions -/

/-- Rounds read definitions one after the other. -/
theorem rounds_of_layout {α : Type} {tokens : α → List Token} {readAs : α → Part → Prop}
    (htokens : ∀ x, tokens x ≠ []) {xs : List α}
    (item : ∀ (x : α) (ys : List α),
      ReadsAhead q e (tokens x) (readAs x) (ys.flatMap tokens ++ ts))
    (h : Laid q (xs.flatMap tokens ++ ts) c.rest) :
    ∃ (d : Cursor) (ns : List Part),
      (∀ x, q x → Rounds e skipBlank (c.followedBy x) ns (d.followedBy x)) ∧
      List.Forall₂ readAs xs ns ∧ Laid q ts d.rest := by
  induction xs generalizing c with
  | nil => exact ⟨c, [], fun x _ => .none _, .nil, h⟩
  | cons x xs ih =>
    rw [List.flatMap_cons, List.append_assoc] at h
    have hkeeps := h.keeps (by simp [htokens x])
    obtain ⟨b, n, hn, hread, hb⟩ := item x xs _ h.ready
    obtain ⟨d, ns, hns, hreads, hd⟩ := ih hb
    exact ⟨d, n :: ns, fun y hy => .more (by rw [hkeeps y hy]; exact hn y hy) (hns y hy),
      .cons hread hreads, hd⟩

theorem reads_many {α : Type} {tokens : α → List Token} {readAs : α → Part → Prop}
    (hlength : 0 < e.leastLength) (htokens : ∀ x, tokens x ≠ [])
    (item : ∀ (x : α) (ys : List α),
      ReadsAhead q e (tokens x) (readAs x) (ys.flatMap tokens ++ t :: ts))
    (stop : ∀ {c d}, t.Stands q c d → Fails q skipBlank e c) (xs : List α)
    (h : Ready q (xs.flatMap tokens ++ t :: ts) c.rest) :
    ∃ d ns, Reads q skipBlank (many e) c d ns ∧ List.Forall₂ readAs xs ns ∧
      Laid q (t :: ts) d.rest := by
  cases xs with
  | nil =>
    obtain ⟨d, hd, _⟩ := h.stands
    have hnone : Reads q skipBlank (many e) c c [] := fun x hx =>
      (match?_many forward_skipBlank hlength).mpr (.inl ⟨stop hd x hx, rfl, rfl⟩)
    exact ⟨c, [], hnone, .nil, h.laid⟩
  | cons x xs =>
    rw [List.flatMap_cons, List.append_assoc] at h
    obtain ⟨b, n, hn, hread, hb⟩ := item x xs _ h
    obtain ⟨d, ns, hns, hreads, hd⟩ := rounds_of_layout htokens item hb
    refine ⟨d, n :: ns, fun y hy => ?_, .cons hread hreads, hd⟩
    obtain ⟨d', hd', _⟩ := hd.ready.stands
    have hstop := stop hd' y hy
    rw [← hd.keeps (by simp) y hy] at hstop
    exact (match?_many forward_skipBlank hlength).mpr
      (.inr ⟨_, [n], ns, hn y hy, hns y hy, hstop, rfl⟩)

/-! ## Attributes -/

theorem reads_argumentList {as : List ArgumentDef}
    (h : Ready q (argumentTokens as ++ .mark .closeParen :: ts) c.rest) :
    ∃ d ns, Reads q skipBlank (optional (seq argument (many (seq (text ",") argument)))) c d ns ∧
      List.Forall₂ ArgumentDef.ReadAs as ns ∧ Laid q (.mark .closeParen :: ts) d.rest := by
  cases as with
  | nil =>
    obtain ⟨d, hd, _⟩ := h.stands
    exact ⟨c, [], .optional_none (.seq_left (fails_argument hd)), .nil, h.laid⟩
  | cons a as =>
    obtain ⟨b, hb, others⟩ := h.stands
    have item : ∀ (x : ArgumentDef) (ys : List ArgumentDef),
        ReadsAhead q (seq (text ",") argument) [.mark .comma, x.token] x.ReadAs
          (ys.flatMap (fun y => [.mark .comma, y.token]) ++ .mark .closeParen :: ts) := by
      intro x ys c h
      obtain ⟨b, hb, others⟩ := h.stands
      obtain ⟨d, hd, others'⟩ := others.ready.stands
      exact ⟨d, _, (reads_mark hb).seq (others.keeps (by simp)) (reads_argument hd),
        hd.isToken _ _, others'⟩
    obtain ⟨d, ns, hns, hreads, hd⟩ := reads_many (by decide) (by simp) item
      (fun hd => .seq_left (fails_mark (m := .comma) hd (by decide))) as others.ready
    exact ⟨d, _ :: ns, ((reads_argument hb).seq (others.keeps (by simp)) hns).optional_some,
      .cons (hb.isToken _ _) hreads, hd⟩

theorem reads_arguments {as : List ArgumentDef}
    (h : Ready q (.mark .openParen :: (argumentTokens as ++ .mark .closeParen :: ts)) c.rest) :
    ∃ d ns, Reads q skipBlank arguments c d [.between .arguments c d ns] ∧
      List.Forall₂ ArgumentDef.ReadAs as ns ∧ Laid q ts d.rest := by
  obtain ⟨a, ha, hlist⟩ := h.stands
  obtain ⟨b, ns, hns, hreads, hclose⟩ := reads_argumentList hlist.ready
  obtain ⟨d, hd, others⟩ := hclose.ready.stands
  have hseq := (reads_mark ha).seq (hlist.keeps (by simp))
    (hns.seq (hclose.keeps (by simp)) (reads_mark hd))
  rw [List.append_nil, List.nil_append] at hseq
  exact ⟨d, ns, hseq.phrase, hreads, others⟩

theorem reads_attribute {m : Mark} {mark : String} (hmark : text mark = word m.text)
    (a : AttributeDef) (ht : t.start ≠ .sign '(') :
    ReadsAhead q (markedAttribute s mark) (a.tokens m) (a.ReadAs s) (t :: ts) := by
  intro c h
  obtain ⟨name, as⟩ := a
  obtain ⟨a, ha, hname⟩ := h.stands
  obtain ⟨b, hb, hlist⟩ := hname.ready.stands
  have hkeeps := hlist.keeps (by cases as <;> simp)
  have hreads : ∀ {d ns}, Reads q skipBlank (optional arguments) (skipBlank b) d ns →
      Reads q skipBlank (markedAttribute s mark) c d
        [.between s c d (.between .identifier (skipBlank a) b [] :: ns)] := fun h => by
    have hseq := (reads_mark ha).seq (hname.keeps (by simp))
      ((reads_nameToken hb .identifier).seq hkeeps h)
    rw [← hmark] at hseq
    exact hseq.phrase
  cases as with
  | none =>
    obtain ⟨d, hd, _⟩ := hlist.ready.stands
    have hnone : Fails q skipBlank arguments (skipBlank b) :=
      .phrase (.seq_left (fails_mark (m := .openParen) hd ht))
    exact ⟨_, _, hreads (.optional_none hnone), .bare (hb.isToken _ _),
      hlist.ready.laid⟩
  | some as =>
    have hlist' : Laid q (.mark .openParen :: (argumentTokens as ++ .mark .closeParen :: t :: ts))
        b.rest := by simpa using hlist
    obtain ⟨d, ns, hns, hargs, others⟩ := reads_arguments hlist'.ready
    exact ⟨d, _, hreads hns.optional_some, .applied (hb.isToken _ _) hargs, others⟩

theorem fails_markedAttribute {m : Mark} {mark : String} (hmark : text mark = word m.text)
    (h : t.Stands q c d) (ht : t.start ≠ .sign m.first) :
    Fails q skipBlank (markedAttribute s mark) c := by
  have hfirst : Fails q skipBlank (word m.text) c := fails_mark h ht
  rw [← hmark] at hfirst
  exact .phrase (.seq_left hfirst)

/-- The mark of a model attribute starts like the one of a field attribute, but no name follows its
    first character. -/
theorem fails_fieldAttribute_of_doubleAt (h : (Token.mark .doubleAt).Stands q c d) :
    Fails q skipBlank fieldAttribute c := by
  obtain ⟨b, hb, hd⟩ := Cursor.passes_cons.mp h.passes
  have hfirst : (Token.mark .atSign).Stands q c b := Token.stands_mark ⟨hb, trivial⟩
  have hsecond : (Token.mark .atSign).Stands q b d := Token.stands_mark ⟨hd, trivial⟩
  have hname : Fails q skipBlank identifier b := fails_identifier hsecond (by decide)
  exact .phrase (.seq_right (reads_mark hfirst) hsecond.keeps
    (.seq_left (by rw [hsecond.skipBlank_eq]; exact hname)))

theorem fails_fieldAttribute (h : t.Stands q c d) (ht : t ≠ .mark .atSign) :
    Fails q skipBlank fieldAttribute c := by
  by_cases hstart : t.start = .sign '@'
  · obtain rfl : t = .mark .doubleAt := by
      cases t with
      | mark m => cases m <;> simp_all [Token.start, Mark.first]
      | _ => cases hstart
    exact fails_fieldAttribute_of_doubleAt h
  · exact fails_markedAttribute (m := .atSign) rfl h hstart

/-! ## Fields -/

theorem reads_docs {docs : List LineText} (ht : t.start ≠ .slash)
    (h : Ready q (docs.map .docLine ++ t :: ts) c.rest) :
    ∃ d ns, Reads q skipBlank (optional documentation) c d ns ∧ DocsReadAs docs ns ∧
      Laid q (t :: ts) d.rest := by
  cases docs with
  | nil =>
    obtain ⟨d, hd, _⟩ := h.stands
    exact ⟨c, [], .optional_none (.phrase (.seq_left (fails_docLine hd ht))), .none, h.laid⟩
  | cons l ls =>
    obtain ⟨b, hb, others⟩ := h.stands
    have item : ∀ (l : LineText) (ls : List LineText),
        ReadsAhead q docLine [.docLine l] (IsToken .docLine (Token.docLine l).text)
          (ls.flatMap (fun l => [Token.docLine l]) ++ t :: ts) := by
      intro l ls c h
      obtain ⟨d, hd, others⟩ := h.stands
      exact ⟨d, _, reads_docLine hd, hd.isToken _ _, others⟩
    rw [List.map_eq_flatMap] at others
    obtain ⟨d, ns, hns, hreads, hd⟩ := reads_many (by decide) (by simp) item
      (fun hd => fails_docLine hd ht) ls others.ready
    exact ⟨d, _, ((reads_docLine hb).seq (others.keeps (by simp)) hns).phrase.optional_some,
      .some (.cons (hb.isToken _ _) hreads), hd⟩

theorem reads_marker {ch : Char} {w : List Char} (isMarked : Bool)
    (h : c.Passes (if isMarked then ch :: w else []) d)
    (hstops : isMarked = false → ∀ x, q x → Stops (· == ch) (c.rest ++ x)) :
    ∃ ns, Reads q id (optional (phrase s (word (ch :: w)))) c d ns ∧
      ns.map (·.symbol) = if isMarked then [s] else [] := by
  cases isMarked with
  | false =>
    obtain rfl := Cursor.passes_nil.mp h
    refine ⟨[], .optional_none (.phrase fun x hx => ?_), rfl⟩
    rw [Option.eq_none_iff_forall_ne_some]
    rintro ⟨d', ms⟩ hmatch
    have hrest : d.rest ++ x = ch :: (w ++ d'.rest) := (match?_word.mp hmatch).1.rest
    have hnext := hstops rfl x hx
    rw [hrest] at hnext
    exact absurd (hnext ch rfl) (by simp)
  | true =>
    exact ⟨_, .optional_some (.phrase fun x _ => match?_word.mpr ⟨h.followedBy x, rfl⟩), rfl⟩

/-- Marks that belong to types start nothing else. -/
theorem Layout.stops (h : Layout ts cs) {ch : Char} (hch : ch = '[' ∨ ch = '?') :
    Stops (· == ch) cs := by
  intro ch' hhead
  rw [beq_eq_false_iff_ne]
  rintro rfl
  cases h with
  | nil => cases hhead
  | blank hblank _ =>
    obtain rfl := Option.some.inj hhead
    rcases hch with rfl | rfl <;> exact absurd hblank (by decide)
  | comment _ _ _ _ =>
    obtain rfl := Option.some.inj hhead
    rcases hch with h | h <;> exact absurd h (by decide)
  | @token t cs ts _ _ =>
    obtain ⟨c, w, htext, hstart⟩ := t.exists_text_eq_cons
    rw [htext] at hhead
    obtain rfl := Option.some.inj hhead
    have hsign : Start.of c = .sign c := by rcases hch with rfl | rfl <;> decide
    have hne : t.start ≠ .sign c := by
      cases t with
      | mark m => cases m <;> rcases hch with rfl | rfl <;> decide
      | _ => simp [Token.start]
    exact hne (hstart.symm.trans hsign)

theorem reads_type {name : Name} {isList isOptional : Bool}
    (h : (Token.type name isList isOptional).Stands q c d) (hd : Laid q ts d.rest)
    (hts : ts ≠ []) :
    ∃ n, Reads q skipBlank fieldType c d [n] ∧ TypeReadAs name isList isOptional n := by
  obtain ⟨a, ha, hmarks⟩ := Cursor.passes_append.mp h.passes
  obtain ⟨b, hlist, hoptional⟩ := Cursor.passes_append.mp hmarks
  have hname : (Token.word name).Stands q c a := by
    have hends := h.ends
    have hendsBefore := h.endsBefore
    have hmark : ∀ (ch : Char) (w : List Char), isIdentChar ch = false →
        Stops isIdentChar (ch :: w) := by
      rintro ch w hch ch' hhead
      obtain rfl := Option.some.inj hhead
      exact hch
    refine ⟨⟨ha, ?_⟩, fun x hx => ?_⟩ <;> rw [Token.EndsBefore, hmarks.rest] <;>
      cases isList <;> cases isOptional
    · exact hends
    all_goals first
      | exact hmark _ _ (by decide)
      | exact hendsBefore x hx
  have hnext : ∀ ch, ch = '[' ∨ ch = '?' → ∀ x, Stops (· == ch) (d.rest ++ x) := fun ch hch x =>
    stops_congr (hd.layout.stops hch)
      (List.head?_append_of_ne_nil _ (hd.layout.ne_nil hts))
  obtain ⟨ns, hns, hsymbols⟩ := reads_marker (q := q) (s := .optionalMarker) isOptional hoptional
    (by
      rintro rfl x -
      obtain rfl := Cursor.passes_nil.mp hoptional
      exact hnext _ (.inr rfl) x)
  obtain ⟨ms, hms, hsymbols'⟩ := reads_marker (q := q) (s := .listMarker) isList hlist
    (by
      rintro rfl x -
      obtain rfl := Cursor.passes_nil.mp hlist
      rw [hoptional.rest]
      cases isOptional with
      | false => exact hnext _ (.inl rfl) x
      | true => simp [Stops])
  exact ⟨_, ((reads_nameToken hname .typeName).seq (keeps_id _) (hms.seq (keeps_id _) hns)).compact,
    .mk (hname.isToken _ _) (by simp [hsymbols, hsymbols'])⟩

/-- What comes after some definitions is the start of another one or what comes after them all. -/
theorem exists_next {α : Type} {tokens : α → List Token} {p : Token → Prop}
    (htokens : ∀ x, ∃ u us, tokens x = u :: us ∧ p u) (ht : p t) (xs : List α) :
    ∃ u us, xs.flatMap tokens ++ t :: ts = u :: us ∧ p u := by
  cases xs with
  | nil => exact ⟨t, ts, rfl, ht⟩
  | cons x xs =>
    obtain ⟨u, us, hu, hp⟩ := htokens x
    exact ⟨u, us ++ (xs.flatMap tokens ++ t :: ts), by simp [hu], hp⟩

/-- The token cannot go on a field. -/
structure Token.EndsField (t : Token) : Prop where
  ne_at : t ≠ .mark .atSign
  start_ne : t.start ≠ .sign '('

theorem reads_field (f : FieldDef) (ht : t.EndsField) :
    ReadsAhead q field f.tokens f.ReadAs (t :: ts) := by
  intro c h
  have item : ∀ (x : AttributeDef) (ys : List AttributeDef),
      ReadsAhead q fieldAttribute (x.tokens .atSign) (x.ReadAs .fieldAttribute)
        (ys.flatMap (·.tokens .atSign) ++ t :: ts) := by
    intro x ys
    have hfirst : ∀ y : AttributeDef, ∃ u us, y.tokens .atSign = u :: us ∧ u.start ≠ .sign '(' :=
      fun y => ⟨_, _, rfl, by decide⟩
    obtain ⟨u, us, hus, hu⟩ := exists_next hfirst ht.start_ne ys
    rw [hus]
    exact reads_attribute (show text "@" = word Mark.atSign.text from rfl) x hu
  simp only [FieldDef.tokens, List.append_assoc, List.cons_append] at h
  obtain ⟨a, docs, hdocs, hreads, hname⟩ := reads_docs (by simp [Token.start]) h
  obtain ⟨b, hb, htype⟩ := hname.ready.stands
  obtain ⟨b', hb', hattributes⟩ := htype.ready.stands
  obtain ⟨n, hn, hread⟩ := reads_type hb' hattributes (by simp)
  obtain ⟨d, ns, hns, hreads', hd⟩ := reads_many (by decide) (by simp [AttributeDef.tokens]) item
    (fun hd => fails_fieldAttribute hd ht.ne_at) f.attributes hattributes.ready
  have hseq := hdocs.seq (hname.keeps (by simp)) ((reads_nameToken hb .identifier).seq
    (htype.keeps (by simp)) (hn.seq (hattributes.keeps (by simp)) hns))
  exact ⟨d, _, hseq.phrase, .mk hreads (hb.isToken _ _) hread hreads', hd⟩

/-! ## Models -/

theorem FieldDef.exists_tokens_eq_cons (f : FieldDef) :
    ∃ u us, f.tokens = u :: us ∧ (u.start = .slash ∨ u.start = .letter) := by
  obtain ⟨_ | ⟨l, ls⟩⟩ := f
  · exact ⟨_, _, rfl, .inr rfl⟩
  · exact ⟨_, _, rfl, .inl rfl⟩

theorem ItemDef.exists_tokens_eq_cons (i : ItemDef) : ∃ u us, i.tokens = u :: us ∧ u.EndsField := by
  cases i with
  | field f =>
    obtain ⟨u, us, hus, hu⟩ := f.exists_tokens_eq_cons
    refine ⟨u, us, hus, ?_, ?_⟩
    · rintro rfl
      rcases hu with h | h <;> cases h
    · rcases hu with h | h <;> simp [h]
  | modelAttribute a => exact ⟨_, _, rfl, by decide, by decide⟩

theorem reads_item (i : ItemDef) (ht : t.EndsField) :
    ReadsAhead q modelItem i.tokens i.ReadAs (t :: ts) := by
  intro c h
  cases i with
  | field f =>
    obtain ⟨d, n, hn, hread, hd⟩ := reads_field f ht c h
    obtain ⟨u, us, hus, hu⟩ := f.exists_tokens_eq_cons
    rw [ItemDef.tokens, hus] at h
    obtain ⟨b, hb, _⟩ := h.stands
    have hattribute : Fails q skipBlank modelAttribute c :=
      fails_markedAttribute (m := .doubleAt) rfl hb (by rcases hu with h | h <;> simp [h])
    exact ⟨d, n, hn.choice_right hattribute, hread, hd⟩
  | modelAttribute a =>
    have hmark : text "@@" = word Mark.doubleAt.text := rfl
    obtain ⟨d, n, hn, hread, hd⟩ := reads_attribute hmark a ht.start_ne c h
    exact ⟨d, n, hn.choice_left, hread, hd⟩

theorem fails_item (h : (Token.mark .closeBrace).Stands q c d) : Fails q skipBlank modelItem c := by
  have hdocs : Fails q skipBlank documentation c :=
    .phrase (.seq_left (fails_docLine h (by decide)))
  have hname : Fails q skipBlank identifier (skipBlank c) := by
    rw [h.skipBlank_eq]
    exact fails_identifier h (by decide)
  exact .choice (fails_markedAttribute (m := .doubleAt) rfl h (by decide))
    (.phrase (.seq_right (.optional_none hdocs) h.keeps (.seq_left hname)))

theorem ModelDef.tokens_ne_nil (m : ModelDef) : m.tokens ≠ [] := by simp [tokens]

theorem ModelDef.getLast?_tokens (m : ModelDef) :
    m.tokens.getLast? = some (.mark .closeBrace) := by
  simp [tokens, List.getLast?_cons]

theorem ModelDef.getLast?_flatMap_tokens {ms : List ModelDef} (hms : ms ≠ []) :
    (ms.flatMap ModelDef.tokens).getLast? = some (.mark .closeBrace) := by
  obtain ⟨ms, m, rfl⟩ := (List.eq_nil_or_concat ms).resolve_left hms
  rw [List.concat_eq_append, List.flatMap_append, List.flatMap_singleton,
    List.getLast?_append_of_ne_nil _ m.tokens_ne_nil, m.getLast?_tokens]

theorem reads_model (m : ModelDef) : ReadsAhead q model m.tokens m.ReadAs ts := by
  intro c h
  have item : ∀ (i : ItemDef) (is : List ItemDef),
      ReadsAhead q modelItem i.tokens i.ReadAs
        (is.flatMap ItemDef.tokens ++ .mark .closeBrace :: ts) := by
    intro i is
    have hclose : (Token.mark .closeBrace).EndsField := ⟨by decide, by decide⟩
    obtain ⟨u, us, hus, hu⟩ := exists_next ItemDef.exists_tokens_eq_cons hclose is
    rw [hus]
    exact reads_item i hu
  have hitem : ∀ i : ItemDef, i.tokens ≠ [] := fun i => by
    obtain ⟨u, us, hus, -⟩ := i.exists_tokens_eq_cons
    simp [hus]
  simp only [ModelDef.tokens, List.append_assoc, List.cons_append, List.nil_append] at h
  obtain ⟨a, docs, hdocs, hreads, hkeyword⟩ := reads_docs (by simp [Token.start]) h
  obtain ⟨b, hb, hname⟩ := hkeyword.ready.stands
  obtain ⟨b', hb', hopen⟩ := hname.ready.stands
  obtain ⟨a', ha', hitems⟩ := hopen.ready.stands
  obtain ⟨a'', ns, hns, hreads', hclose⟩ := reads_many (by decide) hitem item fails_item m.items
    hitems.ready
  obtain ⟨d, hd, others⟩ := hclose.ready.stands
  have hseq := hdocs.seq (hkeyword.keeps (by simp)) ((reads_modelKeyword hb).seq
    (hname.keeps (by simp)) ((reads_nameToken hb' .identifier).seq (hopen.keeps (by simp))
      ((reads_mark ha').seq (hitems.keeps (by simp))
        (hns.seq (hclose.keeps (by simp)) (reads_mark hd)))))
  rw [List.append_nil, List.nil_append] at hseq
  exact ⟨d, _, hseq.phrase, .mk hreads rfl (hb'.isToken _ _) hreads', others⟩

end SchemaFilter.SchemaText
