import SchemaFilter.Proofs.Schema.TokenRules

/-!
# Texts that go on

A text may go on after the tokens of a definition, and what is read in it should not depend on that.
For lines of their own it never does: no token and no comment goes on over the end of a line. After
a closing brace everything may follow.

The tails that a text may have are given by a predicate `q`. Where the tokens end and the comments
stop is required of the text alone and of the text with each of these tails.

Main definitions and results:

* `Laid`: layouts that stay layouts up to their last token, whatever tail comes after them;
* `Layout.laid_lines` and `Layout.laid_closed`: the two kinds of tails;
* `Laid.ready` and `Laid.skipBlank_followedBy`: the first token comes right after what is skipped,
  and what is skipped before it does not depend on the tail.
-/

namespace SchemaFilter.SchemaText

open Grammar Grammar.Expr

variable {q : List Char → Prop} {c d : Cursor} {t : Token} {ts : List Token} {cs : List Char}

/-! ## Tokens -/

/-- The token stands between the cursors and ends there, whatever tail comes after the text. -/
structure Token.Stands (q : List Char → Prop) (t : Token) (c d : Cursor) : Prop
    extends t.Between c d where
  endsBefore : ∀ x, q x → t.EndsBefore (d.rest ++ x)

theorem Token.Stands.followedBy {x : List Char} (h : t.Stands q c d) (hx : q x) :
    t.Between (c.followedBy x) (d.followedBy x) := ⟨h.passes.followedBy x, h.endsBefore x hx⟩

/-- Marks end by themselves. -/
theorem Token.stands_mark {m : Mark} (h : (Token.mark m).Between c d) :
    (Token.mark m).Stands q c d := ⟨h, fun _ _ => trivial⟩

/-! ## Layouts -/

/-- The text is a layout of the tokens, and no tail changes where they end and what stands before
    each of them. -/
inductive Laid (q : List Char → Prop) : List Token → List Char → Prop
  | nil {cs : List Char} (h : Layout [] cs) : Laid q [] cs
  | blank {c : Char} {cs : List Char} {ts : List Token} (hblank : isBlankChar c = true)
      (others : Laid q ts cs) : Laid q ts (c :: cs)
  | comment {body cs : List Char} {ts : List Token} (hline : ∀ c ∈ body, (!isLineEnd c) = true)
      (hslash : Stops (· == '/') body) (hend : StartsLine cs)
      (hends : ∀ x, q x → StartsLine (cs ++ x)) (others : Laid q ts cs) :
      Laid q ts ('/' :: '/' :: (body ++ cs))
  | token {t : Token} {cs : List Char} {ts : List Token} (hend : t.EndsBefore cs)
      (hends : ∀ x, q x → t.EndsBefore (cs ++ x)) (others : Laid q ts cs) :
      Laid q (t :: ts) (t.text ++ cs)

theorem Laid.layout (h : Laid q ts cs) : Layout ts cs := by
  induction h with
  | nil h => exact h
  | blank hblank _ ih => exact .blank hblank ih
  | comment hline hslash hend _ _ ih => exact .comment hline hslash hend ih
  | token hend _ _ ih => exact .token hend ih

/-- Lines of their own may follow every layout. -/
theorem Layout.laid_lines (h : Layout ts cs) : Laid StartsLine ts cs := by
  induction h with
  | nil => exact .nil .nil
  | blank hblank _ ih => exact .blank hblank ih
  | comment hline hslash hend _ ih =>
    exact .comment hline hslash hend (fun x hx => stops_append hend hx (by simp)) ih
  | token hend _ ih => exact .token hend (fun x hx => hend.append hx) ih

theorem Layout.ne_nil (h : Layout ts cs) (hts : ts ≠ []) : cs ≠ [] := by
  cases h with
  | nil => exact absurd rfl hts
  | blank => simp
  | comment => simp
  | @token t cs ts hend others =>
    obtain ⟨ch, w, htext, -⟩ := t.exists_text_eq_cons
    simp [htext]

/-- Everything may follow a layout that ends with a closing brace. -/
theorem Layout.laid_closed (h : Layout ts cs) (htokens : ts.getLast? = some (.mark .closeBrace))
    (hclosed : cs.getLast? = some '\x7d') : Laid (fun _ => True) ts cs := by
  induction h with
  | nil => simp at htokens
  | @blank c cs ts hblank others ih =>
    have hcs := others.ne_nil (by rintro rfl; simp at htokens)
    rw [← List.singleton_append, List.getLast?_append_of_ne_nil _ hcs] at hclosed
    exact .blank hblank (ih htokens hclosed)
  | @comment body cs ts hline hslash hend others ih =>
    have hcs := others.ne_nil (by rintro rfl; simp at htokens)
    rw [← List.cons_append, ← List.cons_append, List.getLast?_append_of_ne_nil _ hcs] at hclosed
    exact .comment hline hslash hend
      (fun x _ => stops_congr hend (List.head?_append_of_ne_nil cs hcs)) (ih htokens hclosed)
  | @token t cs ts hend others ih =>
    cases ts with
    | nil =>
      obtain rfl : t = .mark .closeBrace := by simpa using htokens
      exact .token trivial (fun _ _ => trivial) (.nil others)
    | cons u ts =>
      have hcs := others.ne_nil (by simp)
      rw [List.getLast?_cons_cons] at htokens
      rw [List.getLast?_append_of_ne_nil _ hcs] at hclosed
      exact .token hend (fun x _ => hend.congr (List.head?_append_of_ne_nil cs hcs))
        (ih htokens hclosed)

/-! ## First tokens -/

/-- The text starts with the first of the tokens and goes on with the others. -/
def Ready (q : List Char → Prop) : List Token → List Char → Prop
  | [], cs => cs = []
  | t :: ts, cs => ∃ r, cs = t.text ++ r ∧ t.EndsBefore r ∧ (∀ x, q x → t.EndsBefore (r ++ x)) ∧
      Laid q ts r

theorem Ready.laid (h : Ready q ts cs) : Laid q ts cs := by
  cases ts with
  | nil =>
    obtain rfl : cs = [] := h
    exact .nil .nil
  | cons t ts =>
    obtain ⟨r, rfl, hend, hends, others⟩ := h
    exact .token hend hends others

theorem Ready.stands (h : Ready q (t :: ts) c.rest) :
    ∃ d, t.Stands q c d ∧ Laid q ts d.rest := by
  obtain ⟨r, hr, hend, hends, others⟩ := h
  exact ⟨⟨c.offset + byteLength t.text, r⟩, ⟨⟨⟨hr, rfl⟩, hend⟩, hends⟩, others⟩

theorem Layout.skipFrom_eq_nil (h : Layout [] cs) (o : Nat) : (skipFrom false o cs).rest = [] := by
  generalize hts : ([] : List Token) = ts at h
  induction h generalizing o with
  | nil => rfl
  | blank hblank _ ih =>
    rw [skipFrom, if_pos hblank]
    exact ih _ hts
  | comment hline hslash hend _ ih =>
    rw [skipFrom_comment hline hslash hend]
    exact ih _ hts
  | token => cases hts

theorem Layout.skipBlank_eq_nil (h : Layout [] c.rest) : (skipBlank c).rest = [] :=
  h.skipFrom_eq_nil c.offset

/-- After what is skipped comes the first token. -/
theorem Laid.ready_skipFrom (h : Laid q ts cs) (o : Nat) :
    Ready q ts (skipFrom false o cs).rest := by
  induction h generalizing o with
  | nil h => exact h.skipFrom_eq_nil o
  | blank hblank _ ih =>
    rw [skipFrom, if_pos hblank]
    exact ih _
  | comment hline hslash hend _ _ ih =>
    rw [skipFrom_comment hline hslash hend]
    exact ih _
  | @token t cs ts hend hends others _ =>
    rw [skipFrom_token]
    exact ⟨cs, rfl, hend, hends, others⟩

theorem Laid.ready (h : Laid q ts c.rest) : Ready q ts (skipBlank c).rest :=
  h.ready_skipFrom c.offset

theorem Laid.skipFrom_append {x : List Char} (h : Laid q ts cs) (hts : ts ≠ []) (hx : q x)
    (o : Nat) : skipFrom false o (cs ++ x) = (skipFrom false o cs).followedBy x := by
  induction h generalizing o with
  | nil => exact absurd rfl hts
  | blank hblank _ ih =>
    rw [List.cons_append, skipFrom, skipFrom, if_pos hblank, if_pos hblank]
    exact ih hts _
  | comment hline hslash hend hends _ ih =>
    rw [skipFrom_comment hline hslash hend, List.cons_append, List.cons_append, List.append_assoc,
      skipFrom_comment hline hslash (hends x hx)]
    exact ih hts _
  | token hend hends others _ =>
    rw [skipFrom_token, List.append_assoc, skipFrom_token]
    rw [Cursor.followedBy, List.append_assoc]

/-- What is skipped before a token does not depend on the tail. -/
theorem Laid.skipBlank_followedBy {x : List Char} (h : Laid q ts c.rest) (hts : ts ≠ [])
    (hx : q x) : skipBlank (c.followedBy x) = (skipBlank c).followedBy x :=
  h.skipFrom_append hts hx c.offset

end SchemaFilter.SchemaText
