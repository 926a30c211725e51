import SchemaFilter.Proofs.Schema.Lexing

/-!
# Token rules

Which texts the token rules of the grammar read. Each rule gets one equivalence: it matches between
two cursors exactly if a token of its kind stands there. Both the soundness and the completeness of
the larger rules rest on these.

Main definitions and results:

* `Token.Between`: a token stands between two cursors;
* `match?_identifier`, `match?_docLine`, `match?_modelKeyword`, `match?_mark`: single tokens;
* `match?_argument`: the four kinds of arguments, of which the first that matches is taken.
-/

namespace SchemaFilter.SchemaText

open Grammar Grammar.Expr

/-- The token stands between the cursors and ends there. -/
structure Token.Between (t : Token) (c d : Cursor) : Prop where
  passes : c.Passes t.text d
  ends : t.EndsBefore d.rest

variable {skip : Cursor → Cursor} {c d : Cursor} {ns : List Part} {t : Token} {ts : List Token}

/-! ## Tokens in layouts -/

theorem Token.endsBefore_nil (t : Token) : t.EndsBefore [] := by
  cases t with
  | type name isList isOptional => cases isList <;> cases isOptional <;> simp [EndsBefore, Stops]
  | _ => simp [EndsBefore, Stops]

theorem Token.EndsBefore.append {r x : List Char} (h : t.EndsBefore r) (hx : StartsLine x) :
    t.EndsBefore (r ++ x) := by
  have hend : ∀ accepts : Char → Bool, accepts '\n' = false → accepts '\r' = false →
      ∀ c, isLineEnd c = true → accepts c = false := by
    intro accepts hn hr c hc
    obtain rfl | rfl : c = '\n' ∨ c = '\r' := by simpa [isLineEnd] using hc
    · exact hn
    · exact hr
  cases t with
  | docLine text => exact stops_append h hx (hend _ rfl rfl)
  | word name => exact stops_append h hx (hend _ rfl rfl)
  | type name isList isOptional =>
    cases isList <;> cases isOptional
    · exact stops_append h hx (hend _ rfl rfl)
    all_goals trivial
  | number isNegative digits => exact stops_append h hx (hend _ rfl rfl)
  | string | mark => trivial

/-- Where a token ends is seen from the next character. -/
theorem Token.EndsBefore.congr {r x : List Char} (h : t.EndsBefore r) (hhead : x.head? = r.head?) :
    t.EndsBefore x := by
  cases t with
  | docLine text => exact stops_congr h hhead
  | word name => exact stops_congr h hhead
  | type name isList isOptional =>
    cases isList <;> cases isOptional
    · exact stops_congr h hhead
    all_goals trivial
  | number isNegative digits => exact stops_congr h hhead
  | string | mark => trivial

theorem Token.Between.layout (h : t.Between c d) (hd : Layout ts d.rest) :
    Layout (t :: ts) c.rest := by
  rw [h.passes.rest]
  exact .token h.ends hd

/-- Tokens that start at one cursor start alike. -/
theorem Token.Between.start_eq {u : Token} {d' : Cursor} (h : t.Between c d) (h' : u.Between c d') :
    t.start = u.start :=
  Token.start_eq_of_append_eq (h.passes.rest.symm.trans h'.passes.rest)

/-! ## Words -/

theorem match?_mark (m : Mark) :
    (word m.text).match? skip c = some (d, ns) ↔ (Token.mark m).Between c d ∧ ns = [] := by
  rw [match?_word]
  exact and_congr_left' ⟨fun h => ⟨h, trivial⟩, Token.Between.passes⟩

theorem match?_name :
    name.match? id c = some (d, ns) ↔ ∃ n : Name, (Token.word n).Between c d ∧ ns = [] := by
  simp only [name, match?_seq, match?_char, match?_many_char, id]
  constructor
  · rintro ⟨b, _, _, ⟨⟨ch, hb, hch⟩, rfl⟩, ⟨w, hw, hall, hstops, rfl⟩, rfl⟩
    exact ⟨⟨ch :: w, hch, hall⟩, ⟨hb.trans hw, hstops⟩, rfl⟩
  · rintro ⟨⟨_ | ⟨ch, w⟩, hn⟩, ⟨hw, hstops⟩, rfl⟩
    · exact hn.elim
    · obtain ⟨b, hb, hd⟩ := Cursor.passes_cons.mp hw
      exact ⟨b, [], [], ⟨⟨ch, hb, hn.1⟩, rfl⟩, ⟨w, hd, hn.2, hstops, rfl⟩, rfl⟩

theorem match?_nameToken (s : Symbol) :
    (token s name).match? skip c = some (d, ns) ↔
      ∃ n : Name, (Token.word n).Between c d ∧ ns = [.between s c d []] := by
  simp only [match?_token, match?_name]
  grind

theorem match?_identifier :
    identifier.match? skip c = some (d, ns) ↔
      ∃ n : Name, (Token.word n).Between c d ∧ ns = [.between .identifier c d []] :=
  match?_nameToken .identifier

/-- At most one word stands at a cursor. -/
theorem eq_of_word_between {m n : Name} {d' : Cursor} (h : (Token.word m).Between c d)
    (h' : (Token.word n).Between c d') : m = n ∧ d = d' := by
  have hm := match?_name.mpr ⟨m, h, rfl⟩
  have hn := match?_name.mpr ⟨n, h', rfl⟩
  obtain rfl : d = d' := (Prod.mk.inj (Option.some.inj (hm.symm.trans hn))).1
  exact ⟨Subtype.ext (h.passes.textTo.symm.trans h'.passes.textTo), rfl⟩

theorem match?_keyword (n : Name) :
    (seq (word n.val) (notAhead (char isIdentChar))).match? id c = some (d, ns) ↔
      (Token.word n).Between c d ∧ ns = [] := by
  simp only [match?_seq, match?_word, match?_notAhead_char, id]
  constructor
  · rintro ⟨b, _, _, ⟨hb, rfl⟩, ⟨hstops, rfl, rfl⟩, rfl⟩
    exact ⟨⟨hb, hstops⟩, rfl⟩
  · rintro ⟨⟨hd, hstops⟩, rfl⟩
    exact ⟨d, [], [], ⟨hd, rfl⟩, ⟨hstops, rfl, rfl⟩, rfl⟩

theorem match?_modelKeyword :
    modelKeyword.match? skip c = some (d, ns) ↔
      (Token.word modelWord).Between c d ∧ ns = [.between .modelKeyword c d []] := by
  have htext : text "model" = word modelWord.val := rfl
  simp [modelKeyword, htext, match?_token, match?_keyword]

theorem match?_booleanLiteral :
    booleanLiteral.match? skip c = some (d, ns) ↔
      ∃ n : Name, (n = trueWord ∨ n = falseWord) ∧ (Token.word n).Between c d ∧
        ns = [.between .booleanLiteral c d []] := by
  have htrue : text "true" = word trueWord.val := rfl
  have hfalse : text "false" = word falseWord.val := rfl
  simp only [booleanLiteral, htrue, hfalse, match?_token, match?_seq, match?_choice, match?_word,
    match?_notAhead_char, id]
  constructor
  · rintro ⟨_, ⟨b, _, _, ⟨hb, rfl⟩ | ⟨_, hb, rfl⟩, ⟨hstops, rfl, rfl⟩, rfl⟩, rfl⟩
    · exact ⟨trueWord, .inl rfl, ⟨hb, hstops⟩, rfl⟩
    · exact ⟨falseWord, .inr rfl, ⟨hb, hstops⟩, rfl⟩
  · rintro ⟨n, rfl | rfl, ⟨hd, hstops⟩, rfl⟩
    · exact ⟨[], ⟨d, [], [], .inl ⟨hd, rfl⟩, ⟨hstops, rfl, rfl⟩, rfl⟩, rfl⟩
    · have hnone : (word trueWord.val : Expr Symbol).match? id c = none := by
        rw [Option.eq_none_iff_forall_ne_some]
        rintro ⟨b, ms⟩ h
        have hrest := (match?_word.mp h).1.rest.symm.trans hd.rest
        simp [trueWord, falseWord, Token.text] at hrest
      exact ⟨[], ⟨d, [], [], .inr ⟨hnone, hd, rfl⟩, ⟨hstops, rfl, rfl⟩, rfl⟩, rfl⟩

/-! ## Lines, strings and numbers -/

theorem match?_docLine :
    docLine.match? skip c = some (d, ns) ↔
      ∃ l : LineText, (Token.docLine l).Between c d ∧ ns = [.between .docLine c d []] := by
  simp only [docLine, text, restOfLine, match?_token, match?_seq, match?_word, match?_many_char, id]
  constructor
  · rintro ⟨_, ⟨b, _, _, ⟨hb, rfl⟩, ⟨w, hw, hall, hstops, rfl⟩, rfl⟩, rfl⟩
    exact ⟨⟨w, hall⟩, ⟨hb.trans hw, hstops⟩, rfl⟩
  · rintro ⟨⟨w, hall⟩, ⟨hd, hstops⟩, rfl⟩
    obtain ⟨b, hb, hw⟩ := Cursor.passes_append.mp (show c.Passes ("///".toList ++ w) d from hd)
    exact ⟨[], ⟨b, [], [], ⟨hb, rfl⟩, ⟨w, hw, hall, hstops, rfl⟩, rfl⟩, rfl⟩

theorem match?_stringLiteral :
    stringLiteral.match? skip c = some (d, ns) ↔
      ∃ q : Quotable, (Token.string q).Between c d ∧ ns = [.between .stringLiteral c d []] := by
  simp only [stringLiteral, Expr.sequence, text, match?_token, match?_seq, match?_word,
    match?_many_char, id]
  constructor
  · rintro ⟨_, ⟨a, _, _, ⟨ha, rfl⟩, ⟨b, _, _, ⟨w, hw, hall, _, rfl⟩, ⟨hd, rfl⟩, rfl⟩, rfl⟩, rfl⟩
    exact ⟨⟨w, hall⟩, ⟨ha.trans (hw.trans hd), trivial⟩, rfl⟩
  · rintro ⟨⟨w, hall⟩, ⟨hd, _⟩, rfl⟩
    obtain ⟨a, ha, hd⟩ := Cursor.passes_cons.mp hd
    obtain ⟨b, hw, hd⟩ := Cursor.passes_append.mp hd
    have hstops : Stops (fun c => decide (c ≠ '"')) b.rest := by simp [Stops, hd.rest]
    exact ⟨[], ⟨a, [], [], ⟨ha, rfl⟩, ⟨b, [], [], ⟨w, hw, hall, hstops, rfl⟩, ⟨hd, rfl⟩, rfl⟩, rfl⟩,
      rfl⟩

theorem match?_numberLiteral :
    numberLiteral.match? skip c = some (d, ns) ↔
      ∃ isNegative, ∃ digits : Digits, (Token.number isNegative digits).Between c d ∧
        ns = [.between .numberLiteral c d []] := by
  simp only [numberLiteral, text, match?_token, match?_seq, match?_optional, match?_word,
    match?_several_char, id]
  constructor
  · rintro ⟨_, ⟨b, _, _, ⟨hb, rfl⟩ | ⟨_, rfl, rfl⟩, ⟨w, hw, hne, hall, hstops, rfl⟩, rfl⟩, rfl⟩
    · exact ⟨true, ⟨w, hne, hall⟩, ⟨hb.trans hw, hstops⟩, rfl⟩
    · exact ⟨false, ⟨w, hne, hall⟩, ⟨hw, hstops⟩, rfl⟩
  · rintro ⟨_ | _, ⟨w, hne, hall⟩, ⟨hd, hstops⟩, rfl⟩
    · have hnone : (word ['-'] : Expr Symbol).match? id c = none := by
        rw [Option.eq_none_iff_forall_ne_some]
        rintro ⟨b, ms⟩ h
        have hrest := (match?_word.mp h).1.rest.symm.trans hd.rest
        cases w with
        | nil => exact hne rfl
        | cons ch w =>
          obtain ⟨rfl, -⟩ := List.cons.inj hrest
          exact absurd (hall '-' List.mem_cons_self) (by decide)
      exact ⟨[], ⟨c, [], [], .inr ⟨hnone, rfl, rfl⟩, ⟨w, hd, hne, hall, hstops, rfl⟩, rfl⟩, rfl⟩
    · obtain ⟨b, hb, hw⟩ := Cursor.passes_cons.mp hd
      exact ⟨[], ⟨b, [], [], .inl ⟨hb, rfl⟩, ⟨w, hw, hne, hall, hstops, rfl⟩, rfl⟩, rfl⟩

/-! ## Arguments -/

theorem stringLiteral_eq_none (h : t.Between c d) (ht : t.start ≠ .quote) :
    stringLiteral.match? skip c = none := by
  rw [Option.eq_none_iff_forall_ne_some]
  rintro ⟨b, ms⟩ hmatch
  obtain ⟨q, hb, -⟩ := match?_stringLiteral.mp hmatch
  exact ht (h.start_eq hb)

theorem numberLiteral_eq_none (h : t.Between c d) (ht : t.start ≠ .number) :
    numberLiteral.match? skip c = none := by
  rw [Option.eq_none_iff_forall_ne_some]
  rintro ⟨b, ms⟩ hmatch
  obtain ⟨isNegative, digits, hb, -⟩ := match?_numberLiteral.mp hmatch
  exact ht (h.start_eq hb)

theorem booleanLiteral_eq_none {n : Name} (h : (Token.word n).Between c d)
    (hn : ¬(n = trueWord ∨ n = falseWord)) : booleanLiteral.match? skip c = none := by
  rw [Option.eq_none_iff_forall_ne_some]
  rintro ⟨b, ms⟩ hmatch
  obtain ⟨n', hn', hb, -⟩ := match?_booleanLiteral.mp hmatch
  exact hn ((eq_of_word_between h hb).1 ▸ hn')

/-- The part of the grammar that reads the argument. -/
def ArgumentDef.symbol : ArgumentDef → Symbol
  | string _ => .stringLiteral
  | number _ _ => .numberLiteral
  | word name => if name = trueWord ∨ name = falseWord then .booleanLiteral else .identifier

theorem match?_argument :
    argument.match? skip c = some (d, ns) ↔
      ∃ a : ArgumentDef, a.token.Between c d ∧ ns = [.between a.symbol c d []] := by
  simp only [argument, firstOf, match?_choice]
  constructor
  · rintro (h | ⟨_, h | ⟨_, h | ⟨hboolean, h⟩⟩⟩)
    · obtain ⟨q, hd, rfl⟩ := match?_stringLiteral.mp h
      exact ⟨.string q, hd, rfl⟩
    · obtain ⟨isNegative, digits, hd, rfl⟩ := match?_numberLiteral.mp h
      exact ⟨.number isNegative digits, hd, rfl⟩
    · obtain ⟨n, hn, hd, rfl⟩ := match?_booleanLiteral.mp h
      exact ⟨.word n, hd, by simp [ArgumentDef.symbol, hn]⟩
    · obtain ⟨n, hd, rfl⟩ := match?_identifier.mp h
      have hn : ¬(n = trueWord ∨ n = falseWord) := fun hn =>
        Option.eq_none_iff_forall_ne_some.mp hboolean _ (match?_booleanLiteral.mpr ⟨n, hn, hd, rfl⟩)
      exact ⟨.word n, hd, by simp [ArgumentDef.symbol, hn]⟩
  · rintro ⟨a, hd, rfl⟩
    cases a with
    | string q => exact .inl (match?_stringLiteral.mpr ⟨q, hd, rfl⟩)
    | number isNegative digits =>
      exact .inr ⟨stringLiteral_eq_none hd (by simp [ArgumentDef.token, Token.start]),
        .inl (match?_numberLiteral.mpr ⟨isNegative, digits, hd, rfl⟩)⟩
    | word n =>
      refine .inr ⟨stringLiteral_eq_none hd (by simp [ArgumentDef.token, Token.start]),
        .inr ⟨numberLiteral_eq_none hd (by simp [ArgumentDef.token, Token.start]), ?_⟩⟩
      by_cases hn : n = trueWord ∨ n = falseWord
      · exact .inl (match?_booleanLiteral.mpr ⟨n, hn, hd, by simp [ArgumentDef.symbol, hn]⟩)
      · exact .inr ⟨booleanLiteral_eq_none hd hn,
          match?_identifier.mpr ⟨n, hd, by simp [ArgumentDef.symbol, hn]⟩⟩

/-! ## Types -/

theorem exists_type_of_match? (h : fieldType.match? skip c = some (d, ns)) :
    ∃ name isList isOptional, (Token.type name isList isOptional).Between c d := by
  simp only [fieldType, Expr.sequence, text, match?_compact, match?_seq, match?_optional,
    match?_phrase, match?_nameToken, match?_word, id] at h
  obtain ⟨_, ⟨a, _, _, ⟨n, ⟨ha, hstops⟩, -⟩, ⟨b, _, _, hlist, hoptional, -⟩, -⟩, -⟩ := h
  obtain ⟨_, ⟨hb, -⟩, -⟩ | ⟨-, rfl, -⟩ := hlist <;>
    obtain ⟨_, ⟨hd, -⟩, -⟩ | ⟨-, rfl, -⟩ := hoptional
  · exact ⟨n, true, true, ha.trans (hb.trans hd), trivial⟩
  · exact ⟨n, true, false, ha.trans hb, trivial⟩
  · exact ⟨n, false, true, ha.trans hd, trivial⟩
  · exact ⟨n, false, false, by simpa [Token.text] using ha, hstops⟩

end SchemaFilter.SchemaText
