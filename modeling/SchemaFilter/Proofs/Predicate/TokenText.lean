import Mathlib.Data.List.Chain
import SchemaFilter.Predicate.Sql

/-!
# Tokens in a text

A condition is written without marks between its tokens. Still the tokens can be told from the text:
the fixed texts are no prefixes of each other, a quoted name ends at the first quote that is not
doubled, and a number at its last digit.

Results:

* `doubleQuotes_append_inj`: where a quoted name ends, whatever characters it has;
* `Sql.Token.text_append_inj`: the first token of a text and the rest of it;
* `Sql.render_injective`: the tokens of a text in which no column follows upon a column.
-/

namespace SchemaFilter

/-! ## Quoted names -/

theorem doubleQuotes_cons_quote (cs : List Char) :
    doubleQuotes ('"' :: cs) = '"' :: '"' :: doubleQuotes cs := rfl

theorem doubleQuotes_cons_of_ne {c : Char} (h : c ≠ '"') (cs : List Char) :
    doubleQuotes (c :: cs) = c :: doubleQuotes cs := by rw [doubleQuotes, if_neg h]

/-- The closing quote of a name that no quote follows is not read as part of another name. -/
theorem doubleQuotes_nil_append_ne {d : Char} {b x y : List Char} (hx : x.head? ≠ some '"') :
    '"' :: x ≠ doubleQuotes (d :: b) ++ '"' :: y := by
  intro h
  by_cases hd : d = '"'
  · rw [hd, doubleQuotes_cons_quote] at h
    exact hx (by rw [(List.cons.inj h).2]; rfl)
  · rw [doubleQuotes_cons_of_ne hd] at h
    exact hd (List.cons.inj h).1.symm

/-- Names in quotes are the same, and end at the same place, if they are not followed by a quote. -/
theorem doubleQuotes_append_inj {a b x y : List Char} (hx : x.head? ≠ some '"')
    (hy : y.head? ≠ some '"') (h : doubleQuotes a ++ '"' :: x = doubleQuotes b ++ '"' :: y) :
    a = b ∧ x = y := by
  induction a generalizing b with
  | nil =>
    cases b with
    | nil => exact ⟨rfl, (List.cons.inj h).2⟩
    | cons d b => exact absurd h (doubleQuotes_nil_append_ne hx)
  | cons c a ih =>
    cases b with
    | nil => exact absurd h.symm (doubleQuotes_nil_append_ne hy)
    | cons d b =>
      -- both names begin with a doubled quote, or with one and the same other character
      have hcd : c = d ∧ doubleQuotes a ++ '"' :: x = doubleQuotes b ++ '"' :: y := by
        by_cases hc : c = '"' <;> by_cases hd : d = '"'
        · subst hc hd
          simpa [doubleQuotes_cons_quote] using h
        · subst hc
          rw [doubleQuotes_cons_of_ne hd] at h
          exact absurd (List.cons.inj h).1.symm hd
        · subst hd
          rw [doubleQuotes_cons_of_ne hc] at h
          exact absurd (List.cons.inj h).1 hc
        · rw [doubleQuotes_cons_of_ne hc, doubleQuotes_cons_of_ne hd] at h
          exact List.cons.inj h
      obtain ⟨hab, hxy⟩ := ih hcd.2
      exact ⟨by rw [hcd.1, hab], hxy⟩

theorem toList_quoteIdentifier (name : String) :
    (quoteIdentifier name).toList = '"' :: (doubleQuotes name.toList ++ ['"']) := by
  rw [quoteIdentifier, String.toList_ofList]

/-! ## Numbers -/

theorem toList_toString (n : Nat) : (toString n).toList = Nat.toDigits 10 n := by
  rw [Nat.toString_eq_ofList_toDigits, String.toList_ofList]

theorem toString_nat_injective {m n : Nat} (h : (toString m).toList = (toString n).toList) :
    m = n := by
  rw [toList_toString, toList_toString] at h
  rw [← Nat.ofDigitChars_ten_toDigits (n := m), h, Nat.ofDigitChars_ten_toDigits]

theorem isDigit_of_mem_toString {n : Nat} {c : Char} (h : c ∈ (toString n).toList) :
    c.isDigit = true := by
  rw [toList_toString] at h
  exact Nat.isDigit_of_mem_toDigits (by decide) (by decide) h

/-- A number ends at its last digit. -/
theorem takeWhile_toString {rest : List Char} (h : ∀ c ∈ rest.head?, c.isDigit = false) (n : Nat) :
    ((toString n).toList ++ rest).takeWhile Char.isDigit = (toString n).toList := by
  have hrest : rest.takeWhile Char.isDigit = [] := by
    cases rest with
    | nil => rfl
    | cons c cs => simp [h c rfl]
  rw [List.takeWhile_append_of_pos fun c hc => isDigit_of_mem_toString hc, hrest, List.append_nil]

namespace Sql

namespace Token

/-! ## First characters -/

/-- The first character of the text. -/
def initial : Token → Char
  | column _ _ => '"'
  | placeholder _ => '$'
  | openParen => '('
  | closeParen => ')'
  | comma => ','
  | constant true => 'T'
  | constant false => 'F'
  | compare _ | isNull | isNotNull | combine _ => ' '

theorem exists_toList_text (t : Token) : ∃ cs, t.text.toList = t.initial :: cs := by
  cases t with
  | column q c => simp [text, toList_quoteIdentifier, initial]
  | compare r => simp [text, initial]
  | combine op => simp [text, initial]
  | placeholder n => simp [text, initial]
  | constant b => cases b <;> exact ⟨_, rfl⟩
  | isNull | isNotNull | openParen | closeParen | comma => exact ⟨_, rfl⟩

theorem isDigit_initial (t : Token) : t.initial.isDigit = false := by
  cases t with
  | constant b => cases b <;> rfl
  | _ => rfl

theorem initial_eq_of_append_eq {t u : Token} {a b : List Char}
    (h : t.text.toList ++ a = u.text.toList ++ b) : t.initial = u.initial := by
  obtain ⟨ct, ht⟩ := t.exists_toList_text
  obtain ⟨cu, hu⟩ := u.exists_toList_text
  rw [ht, hu] at h
  exact (List.cons.inj h).1

/-! ## Fixed texts -/

/-- The tokens that are always written in the same way. -/
def fixed : List Token :=
  [isNull, isNotNull, openParen, closeParen, comma, combine .and, combine .or, constant true,
    constant false] ++ Restriction.all.map compare

theorem cases_fixed (t : Token) :
    (∃ q c, t = column q c) ∨ (∃ n, t = placeholder n) ∨ t ∈ fixed := by
  cases t with
  | column q c => exact .inl ⟨q, c, rfl⟩
  | placeholder n => exact .inr (.inl ⟨n, rfl⟩)
  | compare r => exact .inr (.inr (by cases r <;> decide))
  | combine op => exact .inr (.inr (by cases op <;> decide))
  | constant b => exact .inr (.inr (by cases b <;> decide))
  | isNull | isNotNull | openParen | closeParen | comma => exact .inr (.inr (by decide))

theorem initial_ne_of_mem_fixed : ∀ t ∈ fixed, t.initial ≠ '"' ∧ t.initial ≠ '$' := by decide

/-- No fixed text is a prefix of another one. -/
theorem eq_of_prefix_fixed :
    ∀ t ∈ fixed, ∀ u ∈ fixed, t.text.toList <+: u.text.toList → t = u := by decide +kernel

/-! ## Splitting off a token -/

/-- The text of a token ends where the given rest begins. -/
def EndsBefore (rest : List Char) : Token → Prop
  | column _ _ => rest.head? ≠ some '"'
  | placeholder _ => ∀ c ∈ rest.head?, c.isDigit = false
  | _ => True

theorem toList_column_append (q c : String) (rest : List Char) :
    (column q c).text.toList ++ rest =
      '"' :: (doubleQuotes q.toList ++
        '"' :: '.' :: '"' :: (doubleQuotes c.toList ++ '"' :: rest)) := by
  simp [text, toList_quoteIdentifier]

/-- The first token of a text, and the rest of the text, are determined. -/
theorem text_append_inj {t u : Token} {a b : List Char} (ht : t.EndsBefore a) (hu : u.EndsBefore b)
    (h : t.text.toList ++ a = u.text.toList ++ b) : t = u ∧ a = b := by
  have hinitial := initial_eq_of_append_eq h
  rcases t.cases_fixed with ⟨q, c, rfl⟩ | ⟨n, rfl⟩ | htf <;>
    rcases u.cases_fixed with ⟨q', c', rfl⟩ | ⟨n', rfl⟩ | huf
  · -- the qualifier ends before the point, and the column before the rest
    rw [toList_column_append, toList_column_append] at h
    obtain ⟨hq, hrest⟩ := doubleQuotes_append_inj (by simp) (by simp) (List.cons.inj h).2
    simp only [List.cons.injEq, true_and] at hrest
    obtain ⟨hc, hab⟩ := doubleQuotes_append_inj ht hu hrest
    exact ⟨by rw [String.toList_inj.mp hq, String.toList_inj.mp hc], hab⟩
  · simp [initial] at hinitial
  · exact absurd hinitial.symm (initial_ne_of_mem_fixed u huf).1
  · simp [initial] at hinitial
  · have h : (toString n).toList ++ a = (toString n').toList ++ b := by simpa [text] using h
    have hn : (toString n).toList = (toString n').toList := by
      rw [← takeWhile_toString ht n, h, takeWhile_toString hu n']
    exact ⟨by rw [toString_nat_injective hn], List.append_cancel_left (hn ▸ h)⟩
  · exact absurd hinitial.symm (initial_ne_of_mem_fixed u huf).2
  · exact absurd hinitial (initial_ne_of_mem_fixed t htf).1
  · exact absurd hinitial (initial_ne_of_mem_fixed t htf).2
  · have htu : t = u := by
      rcases List.prefix_or_prefix_of_prefix ⟨a, h⟩ ⟨b, rfl⟩ with hp | hp
      · exact eq_of_prefix_fixed t htf u huf hp
      · exact (eq_of_prefix_fixed u huf t htf hp).symm
    subst htu
    exact ⟨rfl, List.append_cancel_left h⟩

end Token

/-! ## Whole texts -/

theorem toList_render (ts : List Token) :
    (render ts).toList = ts.flatMap fun t => t.text.toList := by
  rw [render, String.toList_join, List.flatMap_map]

def Token.isColumn : Token → Bool
  | column _ _ => true
  | _ => false

/-- Two tokens are not both columns. -/
def Parted (t u : Token) : Prop := t.isColumn → u.isColumn = false

theorem Token.initial_eq_quote {t : Token} (h : t.initial = '"') : t.isColumn = true := by
  rcases t.cases_fixed with ⟨q, c, rfl⟩ | ⟨n, rfl⟩ | hf
  · rfl
  · simp [initial] at h
  · exact absurd h (initial_ne_of_mem_fixed t hf).1

theorem head?_texts (ts : List Token) :
    (ts.flatMap fun t => t.text.toList).head? = ts.head?.map Token.initial := by
  cases ts with
  | nil => rfl
  | cons t ts =>
    obtain ⟨cs, hcs⟩ := t.exists_toList_text
    rw [List.flatMap_cons, hcs]
    rfl

/-- No token begins with a digit. -/
theorem isDigit_of_mem_head?_texts {ts : List Token} {c : Char}
    (h : c ∈ (ts.flatMap fun t => t.text.toList).head?) : c.isDigit = false := by
  rw [head?_texts, Option.mem_def, Option.map_eq_some_iff] at h
  obtain ⟨t, _, rfl⟩ := h
  exact t.isDigit_initial

/-- A token ends before the tokens that follow it. -/
theorem Token.endsBefore_of_isChain {t : Token} {ts : List Token} (h : (t :: ts).IsChain Parted) :
    t.EndsBefore (ts.flatMap fun t => t.text.toList) := by
  cases t with
  | column q c =>
    intro hq
    rw [head?_texts, Option.map_eq_some_iff] at hq
    obtain ⟨u, hu, hinitial⟩ := hq
    have hpart : Parted (column q c) u := (List.isChain_cons.mp h).1 u hu
    exact Bool.false_ne_true ((hpart rfl).symm.trans (initial_eq_quote hinitial))
  | placeholder n => exact fun c hc => isDigit_of_mem_head?_texts hc
  | _ => trivial

/-- **Tokens can be read back from their text** if no column follows upon a column. -/
theorem render_injective {ts us : List Token} (hts : ts.IsChain Parted) (hus : us.IsChain Parted)
    (h : render ts = render us) : ts = us := by
  rw [← String.toList_inj, toList_render, toList_render] at h
  induction ts generalizing us with
  | nil =>
    cases us with
    | nil => rfl
    | cons u us =>
      obtain ⟨cs, hcs⟩ := u.exists_toList_text
      simp [hcs] at h
  | cons t ts ih =>
    cases us with
    | nil =>
      obtain ⟨cs, hcs⟩ := t.exists_toList_text
      simp [hcs] at h
    | cons u us =>
      rw [List.flatMap_cons, List.flatMap_cons] at h
      obtain ⟨htu, hrest⟩ := Token.text_append_inj (Token.endsBefore_of_isChain hts)
        (Token.endsBefore_of_isChain hus) h
      exact congrArg₂ List.cons htu (ih hts.tail hus.tail hrest)

end Sql

end SchemaFilter
