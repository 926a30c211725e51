import SchemaFilter.Proofs.Predicate.Tokens
import SchemaFilter.Proofs.Predicate.TokenText

/-!
# Placeholders and bound values

Which placeholders stand in the text of a condition, and that they are those of the bound values.
The placeholders are read off the text as a database does: what stands in double quotes is a name,
whatever it looks like, and outside of quotes a dollar sign begins a placeholder that goes on as
long as there are digits.

Results:

* `placeholdersIn_render`: the placeholders of a text are those of its tokens;
* `Predicate.toSql_group`: the text of a group is made up of the texts of its members;
* `placeholders_eq_range`: placeholders and bound values correspond one to one.
-/

namespace SchemaFilter

open Sql

namespace Sql

/-! ## Reading placeholders -/

/-- The placeholders of a text that begins inside or outside of quotes. A doubled quote in a name
    closes the quotes and opens them again. -/
def scanPlaceholders : (quoted : Bool) → List Char → List String
  | _, [] => []
  | true, c :: cs => scanPlaceholders (c != '"') cs
  | false, c :: cs =>
    if c = '"' then scanPlaceholders true cs
    else if c = '$' then
      String.ofList ('$' :: cs.takeWhile Char.isDigit) :: scanPlaceholders false cs
    else scanPlaceholders false cs

/-- The placeholders of a text, from left to right. -/
def placeholdersIn (sql : String) : List String := scanPlaceholders false sql.toList

/-- The placeholder of the given number, as it is written. -/
def placeholderText (n : Nat) : String := "$" ++ toString n

theorem scanPlaceholders_quoted (c : Char) (cs : List Char) :
    scanPlaceholders true (c :: cs) = scanPlaceholders (c != '"') cs := rfl

theorem scanPlaceholders_quote (cs : List Char) :
    scanPlaceholders false ('"' :: cs) = scanPlaceholders true cs := rfl

theorem scanPlaceholders_dollar (cs : List Char) :
    scanPlaceholders false ('$' :: cs) =
      String.ofList ('$' :: cs.takeWhile Char.isDigit) :: scanPlaceholders false cs := rfl

theorem scanPlaceholders_plain {c : Char} (h : c ≠ '"' ∧ c ≠ '$') (cs : List Char) :
    scanPlaceholders false (c :: cs) = scanPlaceholders false cs :=
  (if_neg h.1).trans (if_neg h.2)

/-- A name is passed over as a whole. -/
theorem scanPlaceholders_doubleQuotes (cs rest : List Char) :
    scanPlaceholders true (doubleQuotes cs ++ '"' :: rest) = scanPlaceholders false rest := by
  induction cs with
  | nil => rfl
  | cons c cs ih =>
    by_cases hc : c = '"'
    · rw [hc, doubleQuotes_cons_quote, ← ih]
      rfl
    · rw [doubleQuotes_cons_of_ne hc, List.cons_append, scanPlaceholders_quoted,
        bne_iff_ne.mpr hc, ih]

theorem scanPlaceholders_append_of_plain {cs : List Char} (h : ∀ c ∈ cs, c ≠ '"' ∧ c ≠ '$')
    (rest : List Char) : scanPlaceholders false (cs ++ rest) = scanPlaceholders false rest := by
  induction cs with
  | nil => rfl
  | cons c cs ih =>
    obtain ⟨hc, hcs⟩ := List.forall_mem_cons.mp h
    rw [List.cons_append, scanPlaceholders_plain hc, ih hcs]

theorem plain_of_isDigit {c : Char} (h : c.isDigit = true) : c ≠ '"' ∧ c ≠ '$' := by
  constructor <;> rintro rfl <;> exact absurd h (by decide)

theorem plain_of_mem_fixed :
    ∀ t ∈ Token.fixed, ∀ c ∈ t.text.toList, c ≠ '"' ∧ c ≠ '$' := by
  have h : (Token.fixed.all fun t => t.text.toList.all fun c => c != '"' && c != '$') = true := by
    decide +kernel
  simpa only [List.all_eq_true, Bool.and_eq_true, bne_iff_ne] using h

theorem scanPlaceholders_number {rest : List Char} (h : ∀ c ∈ rest.head?, c.isDigit = false)
    (n : Nat) :
    scanPlaceholders false ((Token.placeholder n).text.toList ++ rest) =
      placeholderText n :: scanPlaceholders false rest := by
  have htext : (Token.placeholder n).text.toList ++ rest =
      '$' :: ((toString n).toList ++ rest) := by simp [Token.text]
  have hplain : ∀ c ∈ (toString n).toList, c ≠ '"' ∧ c ≠ '$' :=
    fun c hc => plain_of_isDigit (isDigit_of_mem_toString hc)
  have hdigits : String.ofList ('$' :: (toString n).toList) = placeholderText n := by
    rw [← String.toList_inj, String.toList_ofList, placeholderText]
    simp
  rw [htext, scanPlaceholders_dollar, takeWhile_toString h, hdigits,
    scanPlaceholders_append_of_plain hplain]

/-- The placeholders in the text of a token. -/
theorem scanPlaceholders_text (t : Token) {rest : List Char}
    (h : ∀ c ∈ rest.head?, c.isDigit = false) :
    scanPlaceholders false (t.text.toList ++ rest) =
      t.number?.toList.map placeholderText ++ scanPlaceholders false rest := by
  rcases t.cases_fixed with ⟨q, c, rfl⟩ | ⟨n, rfl⟩ | hf
  · have hpoint : '.' ≠ '"' ∧ '.' ≠ '$' := by decide
    rw [Token.toList_column_append, scanPlaceholders_quote, scanPlaceholders_doubleQuotes,
      scanPlaceholders_plain hpoint, scanPlaceholders_quote, scanPlaceholders_doubleQuotes]
    rfl
  · exact scanPlaceholders_number h n
  · have hnone : ∀ u ∈ Token.fixed, u.number? = none := by decide
    rw [scanPlaceholders_append_of_plain (plain_of_mem_fixed t hf), hnone t hf]
    rfl

/-- The placeholders of a text are those of its tokens, whatever names are in it. -/
theorem placeholdersIn_render (ts : List Token) :
    placeholdersIn (render ts) = (numbers ts).map placeholderText := by
  rw [placeholdersIn, toList_render]
  induction ts with
  | nil => rfl
  | cons t ts ih =>
    rw [List.flatMap_cons, scanPlaceholders_text t fun c hc => isDigit_of_mem_head?_texts hc, ih,
      ← List.map_append]
    cases hn : t.number? with
    | none => simp [numbers, hn]
    | some n => simp [numbers, hn]

/-! ## Texts of groups -/

theorem render_cons (t : Token) (ts : List Token) : render (t :: ts) = t.text ++ render ts := by
  rw [render, List.map_cons, String.join_cons, render]

theorem render_append (ts us : List Token) : render (ts ++ us) = render ts ++ render us := by
  rw [render, List.map_append, String.join_append, render, render]

end Sql

namespace Predicate

/-- The texts of predicates one after the other, each numbered after the values that those before
    it bind. -/
def sqlTexts (ps : List Predicate) (offset : Nat) : List String :=
  ps.mapIdx fun i p => (p.toSql (offset + ((ps.take i).flatMap bound).length)).1

theorem sqlTexts_cons (p : Predicate) (ps : List Predicate) (offset : Nat) :
    sqlTexts (p :: ps) offset = (p.toSql offset).1 :: sqlTexts ps (offset + p.bound.length) := by
  rw [sqlTexts, List.mapIdx_cons]
  simp [sqlTexts, Nat.add_assoc]

theorem render_memberTokens (op : Combine) (ps : List Predicate) (offset : Nat) :
    render (memberTokens op ps (offset + 1)).1 =
      (" " ++ op.name ++ " ").intercalate (sqlTexts ps offset) := by
  induction ps generalizing offset with
  | nil => rfl
  | cons p ps ih =>
    rw [sqlTexts_cons]
    cases ps with
    | nil => rfl
    | cons q ps =>
      have hnext : offset + 1 + p.bound.length = offset + p.bound.length + 1 := by omega
      rw [memberTokens_cons_cons, sqlTokens_snd, hnext, render_append, render_cons, ih,
        sqlTexts_cons, String.intercalate_cons_cons]
      exact String.append_assoc.symm

/-- A group is written as its members, each by itself, with its operator between them and in
    parentheses. -/
theorem toSql_group (op : Combine) (ps : List Predicate) (offset : Nat) :
    ((group op ps).toSql offset).1 =
      "(" ++ (" " ++ op.name ++ " ").intercalate (sqlTexts ps offset) ++ ")" := by
  have h : ((group op ps).toSql offset).1 =
      render (.openParen :: ((memberTokens op ps (offset + 1)).1 ++ [.closeParen])) := rfl
  rw [h, render_cons, render_append, render_memberTokens, String.append_assoc]
  rfl

end Predicate

/-! ## The correspondence -/

/-- **Placeholders and bound values correspond one to one.** The placeholders of a condition are
    numbered through from the offset on, one for each bound value. The bound values are those of the
    leaves from left to right, whatever the offset. A group is written as its members are by
    themselves, each with the values bound before it added to the offset. -/
theorem placeholders_eq_range (offset : Nat) :
    (∀ p : Predicate,
      placeholdersIn (p.toSql offset).1 =
          (List.range' (offset + 1) (p.toSql offset).2.length).map placeholderText ∧
        (p.toSql offset).2 = p.comparisons.flatMap Comparison.bound) ∧
      ∀ (op : Combine) (ps : List Predicate),
        ((Predicate.group op ps).toSql offset).1 =
          "(" ++ (" " ++ op.name ++ " ").intercalate
            (ps.mapIdx fun i p =>
              (p.toSql (offset + ((ps.take i).flatMap Predicate.bound).length)).1) ++ ")" := by
  refine ⟨fun p => ?_, fun op ps => Predicate.toSql_group op ps offset⟩
  have hnumbers : placeholdersIn (render (p.sqlTokens (offset + 1)).1) =
      (List.range' (offset + 1) p.bound.length).map placeholderText := by
    rw [placeholdersIn_render, p.numbers_sqlTokens]
  rw [p.toSql_eq]
  exact ⟨hnumbers, rfl⟩

/-- What looks like a placeholder in the name of a column is none. -/
example :
    placeholdersIn ((Predicate.leaf ⟨"Foo", "id", "i\"$7", "foos"⟩ .isIn
      (.list [.bool true, .null])).toSql 3).1 = ["$4", "$5"] := by
  decide +kernel

end SchemaFilter
