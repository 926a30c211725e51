import SchemaFilter.Proofs.Schema.Layout

/-!
# From texts to tokens

What is skipped between tokens, and what the first character tells about a token.

Results:

* `exists_gap` and `Layout.of_skipBlank`: what is skipped may stand before every layout;
* `skipBlank_followedBy_newline`: a line end after what is skipped is skipped too;
* `Token.start_eq_of_append_eq`: the first character tells tokens of different kinds apart.
-/

namespace SchemaFilter.SchemaText

open Grammar Grammar.Expr

/-- The text is empty or starts with the end of a line. -/
abbrev StartsLine (x : List Char) : Prop := Stops (!isLineEnd ·) x

theorem startsLine_nil : StartsLine [] := by simp [Stops]

theorem stops_of_append {accepts : Char → Bool} {r x : List Char} (h : Stops accepts (r ++ x)) :
    Stops accepts r := by
  cases r with
  | nil => simp [Stops]
  | cons c r => exact h

theorem stops_append {accepts : Char → Bool} {r x : List Char} (h : Stops accepts r)
    (hx : StartsLine x) (haccepts : ∀ c, isLineEnd c = true → accepts c = false) :
    Stops accepts (r ++ x) := by
  cases r with
  | nil =>
    intro c hc
    exact haccepts c (by simpa using hx c hc)
  | cons c r => exact h

theorem stops_congr {accepts : Char → Bool} {r x : List Char} (h : Stops accepts r)
    (hhead : x.head? = r.head?) : Stops accepts x := fun ch hch => h ch (hhead ▸ hch)

/-! ## Blanks and comments -/

theorem isBlankChar_of_isLineEnd {c : Char} (h : isLineEnd c = true) : isBlankChar c = true := by
  simp only [isLineEnd, isBlankChar, Bool.or_eq_true] at h ⊢
  tauto

theorem startsComment_iff {cs : List Char} :
    startsComment cs = true ↔ ∃ rest, cs = '/' :: '/' :: rest ∧ Stops (· == '/') rest := by
  match cs with
  | [] => simp [startsComment]
  | [a] => simp [startsComment]
  | [a, b] => by_cases ha : a = '/' <;> by_cases hb : b = '/' <;> simp [startsComment, Stops, *]
  | a :: b :: d :: cs =>
    by_cases ha : a = '/' <;> by_cases hb : b = '/' <;> by_cases hd : d = '/' <;>
      simp [startsComment, Stops, *]

theorem stops_slash_append {x : List Char} (hx : StartsLine x) (r : List Char) :
    Stops (· == '/') (r ++ x) ↔ Stops (· == '/') r := by
  refine ⟨stops_of_append, fun h => stops_append h hx fun c hc => ?_⟩
  rw [beq_eq_false_iff_ne]
  rintro rfl
  exact absurd hc (by decide)

theorem startsComment_append {x : List Char} (hx : StartsLine x) (cs : List Char) :
    startsComment (cs ++ x) = startsComment cs := by
  have hslash : ∀ y, x ≠ '/' :: y := by
    rintro y rfl
    exact absurd (hx '/' rfl) (by decide)
  rw [Bool.eq_iff_iff, startsComment_iff, startsComment_iff]
  match cs with
  | [] | [a] => simp [hslash]
  | a :: b :: cs => simp [stops_slash_append hx]

theorem skipFrom_passes (inComment : Bool) (o : Nat) (cs : List Char) :
    ∃ w, (⟨o, cs⟩ : Cursor).Passes w (skipFrom inComment o cs) := by
  induction cs generalizing inComment o with
  | nil => exact ⟨[], by cases inComment <;> exact .refl _⟩
  | cons c cs ih =>
    have hmore : ∀ b, ∃ w, (⟨o, c :: cs⟩ : Cursor).Passes w (skipFrom b (o + c.utf8Size) cs) := by
      intro b
      obtain ⟨w, hw⟩ := ih b (o + c.utf8Size)
      exact ⟨c :: w, Cursor.passes_cons.mpr ⟨⟨o + c.utf8Size, cs⟩, ⟨rfl, rfl⟩, hw⟩⟩
    cases inComment with
    | true => exact hmore _
    | false =>
      rw [skipFrom]
      split
      · exact hmore false
      · split
        · exact hmore true
        · exact ⟨[], .refl _⟩

theorem forward_skipBlank : Forward skipBlank := fun c => skipFrom_passes false c.offset c.rest

theorem skipFrom_shifted (inComment : Bool) (o k : Nat) (cs : List Char) :
    skipFrom inComment (o + k) cs = (skipFrom inComment o cs).shifted k := by
  induction cs generalizing inComment o with
  | nil => cases inComment <;> rfl
  | cons c cs ih =>
    have hadd : o + k + c.utf8Size = o + c.utf8Size + k := Nat.add_right_comm ..
    cases inComment with
    | true => rw [skipFrom, skipFrom, hadd, ih]
    | false =>
      rw [skipFrom, skipFrom, hadd, ih, ih]
      split
      · rfl
      · split <;> rfl

theorem skipBlank_shifted (k : Nat) (c : Cursor) :
    skipBlank (c.shifted k) = (skipBlank c).shifted k :=
  skipFrom_shifted false c.offset k c.rest

theorem skipFrom_skipFrom (inComment : Bool) (o : Nat) (cs : List Char) :
    skipFrom false (skipFrom inComment o cs).offset (skipFrom inComment o cs).rest =
      skipFrom inComment o cs := by
  induction cs generalizing inComment o with
  | nil => cases inComment <;> rfl
  | cons c cs ih =>
    cases inComment with
    | true => exact ih _ _
    | false =>
      by_cases hblank : isBlankChar c = true
      · simp only [skipFrom, if_pos hblank]
        exact ih _ _
      · by_cases hstarts : startsComment (c :: cs) = true
        · simp only [skipFrom, if_neg hblank, if_pos hstarts]
          exact ih _ _
        · simp only [skipFrom, if_neg hblank, if_neg hstarts]

/-- All that can be skipped is skipped at once. -/
theorem skipBlank_skipBlank (c : Cursor) : skipBlank (skipBlank c) = skipBlank c :=
  skipFrom_skipFrom false c.offset c.rest

theorem skipFrom_append_newline {inComment : Bool} {o : Nat} {cs : List Char} (y : List Char)
    (h : (skipFrom inComment o cs).rest = []) :
    skipFrom inComment o (cs ++ '\n' :: y) = skipFrom false (o + byteLength cs + 1) y := by
  induction cs generalizing inComment o with
  | nil => cases inComment <;> rfl
  | cons c cs ih =>
    rw [byteLength_cons, ← Nat.add_assoc o]
    cases inComment with
    | true => exact ih h
    | false =>
      have hcomment : startsComment (c :: cs ++ '\n' :: y) = startsComment (c :: cs) :=
        startsComment_append (by intro c hc; obtain rfl := Option.some.inj hc; rfl) (c :: cs)
      rw [skipFrom] at h
      rw [List.cons_append] at hcomment ⊢
      rw [skipFrom, hcomment]
      split
      · next hblank => exact ih (by rwa [if_pos hblank] at h)
      · next hblank =>
        rw [if_neg hblank] at h
        split
        · next hstarts => exact ih (by rwa [if_pos hstarts] at h)
        · next hstarts => rw [if_neg hstarts] at h; simp at h

/-- A line end after a text of which all is skipped is skipped too. -/
theorem skipBlank_followedBy_newline {c : Cursor} (y : List Char) (h : (skipBlank c).rest = []) :
    skipBlank (c.followedBy ('\n' :: y)) = skipBlank ⟨c.offset + byteLength c.rest + 1, y⟩ :=
  skipFrom_append_newline y h

/-! ## Layouts -/

variable {ts : List Token}

/-- What is skipped may stand before every layout of other tokens; it may end inside a comment only
    if it is the end of the text. -/
theorem exists_gap_of_skipFrom (cs : List Char) (o : Nat) :
    (∃ g, (⟨o, cs⟩ : Cursor).Passes g (skipFrom false o cs) ∧
      ∀ (ts : List Token) (y : List Char), ((skipFrom false o cs).rest = [] → StartsLine y) →
        Layout ts y → Layout ts (g ++ y)) ∧
      ∃ body rest g, cs = body ++ rest ∧ (∀ c ∈ body, (!isLineEnd c) = true) ∧ StartsLine rest ∧
        (⟨o, cs⟩ : Cursor).Passes (body ++ g) (skipFrom true o cs) ∧
        ∀ (ts : List Token) (y : List Char), ((skipFrom true o cs).rest = [] → StartsLine y) →
          Layout ts y → StartsLine (g ++ y) ∧ Layout ts (g ++ y) := by
  induction cs generalizing o with
  | nil =>
    exact ⟨⟨[], .refl _, fun _ _ _ h => h⟩, [], [], [], rfl, by simp, by simp [Stops], .refl _,
      fun _ _ hy h => ⟨hy rfl, h⟩⟩
  | cons c cs ih =>
    have hstep : (⟨o, c :: cs⟩ : Cursor).Passes [c] ⟨o + c.utf8Size, cs⟩ := ⟨rfl, rfl⟩
    obtain ⟨⟨g, hg, hlayout⟩, body, rest, g', hcs, hline, hend, hg', hlayout'⟩ :=
      ih (o + c.utf8Size)
    constructor
    · rw [skipFrom]
      split
      · next hblank =>
        exact ⟨c :: g, hstep.trans hg, fun ts y hy h => .blank hblank (hlayout ts y hy h)⟩
      · split
        · next hstarts =>
          obtain ⟨cs', hcs', hslash⟩ := startsComment_iff.mp hstarts
          obtain ⟨rfl, rfl⟩ := List.cons.inj hcs'
          cases body with
          | nil =>
            obtain rfl : _ = rest := hcs
            exact absurd (hend '/' rfl) (by decide)
          | cons c' body =>
            obtain ⟨rfl, rfl⟩ := List.cons.inj hcs
            rw [List.forall_mem_cons] at hline
            refine ⟨'/' :: '/' :: (body ++ g'), hstep.trans hg', fun ts y hy h => ?_⟩
            obtain ⟨hstops, others⟩ := hlayout' ts y hy h
            have hcomment := Layout.comment hline.2 (stops_of_append hslash) hstops others
            simpa using hcomment
        · exact ⟨[], .refl _, fun _ _ _ h => h⟩
    · cases hc : isLineEnd c with
      | true =>
        simp only [skipFrom, hc, Bool.not_true]
        refine ⟨[], c :: cs, c :: g, rfl, by simp, by simp [Stops, hc], hstep.trans hg,
          fun ts y hy h => ⟨by simp [Stops, hc], ?_⟩⟩
        exact .blank (isBlankChar_of_isLineEnd hc) (hlayout ts y hy h)
      | false =>
        simp only [skipFrom, hc, Bool.not_false]
        exact ⟨c :: body, rest, g', congrArg (c :: ·) hcs, by simpa [hc] using hline, hend,
          hstep.trans hg', hlayout'⟩

theorem exists_gap (c : Cursor) :
    ∃ g, c.Passes g (skipBlank c) ∧ ∀ (ts : List Token) (y : List Char),
      ((skipBlank c).rest = [] → StartsLine y) → Layout ts y → Layout ts (g ++ y) :=
  (exists_gap_of_skipFrom c.rest c.offset).1

theorem Layout.of_skipBlank {c : Cursor} (h : Layout ts (skipBlank c).rest) :
    Layout ts c.rest := by
  obtain ⟨g, hg, hlayout⟩ := exists_gap c
  rw [hg.rest]
  exact hlayout ts _ (fun hnil => by simp [hnil, Stops]) h

/-! ## First characters -/

/-- What the first character of a token tells about it. -/
inductive Start where
  | slash | letter | quote | number
  | sign (c : Char)
  deriving DecidableEq

def Start.of (c : Char) : Start :=
  if c = '/' then .slash
  else if isIdentStart c then .letter
  else if c = '"' then .quote
  else if c = '-' ∨ c.isDigit then .number
  else .sign c

def Mark.first : Mark → Char
  | openBrace => '\x7b'
  | closeBrace => '\x7d'
  | openParen => '('
  | closeParen => ')'
  | comma => ','
  | atSign | doubleAt => '@'

def Token.start : Token → Start
  | docLine _ => .slash
  | word _ | type _ _ _ => .letter
  | string _ => .quote
  | number _ _ => .number
  | mark m => .sign m.first

theorem Start.of_isIdentStart {c : Char} (h : isIdentStart c = true) : of c = .letter := by
  have hc : c ≠ '/' := by
    rintro rfl
    exact absurd h (by decide)
  simp [of, hc, h]

theorem isIdentStart_of_isDigit {c : Char} (h : c.isDigit = true) : isIdentStart c = false := by
  have hscore : c ≠ '_' := by
    rintro rfl
    exact absurd h (by decide)
  have hdigit : 48 ≤ c.toNat ∧ c.toNat ≤ 57 := by
    simpa [Char.isDigit, UInt32.le_iff_toNat_le] using h
  have hletter : c.isAlpha =
      (decide (65 ≤ c.val ∧ c.val ≤ 90) || (97 ≤ c.val && c.val ≤ 122)) := rfl
  simp [isIdentStart, hletter, UInt32.le_iff_toNat_le, hscore]
  omega

theorem Start.of_isDigit {c : Char} (h : c.isDigit = true) : of c = .number := by
  have hslash : c ≠ '/' := by
    rintro rfl
    exact absurd h (by decide)
  have hquote : c ≠ '"' := by
    rintro rfl
    exact absurd h (by decide)
  simp [of, hslash, hquote, isIdentStart_of_isDigit h, h]

theorem Token.exists_text_eq_cons (t : Token) : ∃ c w, t.text = c :: w ∧ .of c = t.start := by
  have hname : ∀ n : Name, ∃ c w, n.val = c :: w ∧ .of c = Start.letter := by
    rintro ⟨_ | ⟨c, w⟩, hn⟩
    · exact hn.elim
    · exact ⟨c, w, rfl, Start.of_isIdentStart hn.1⟩
  cases t with
  | docLine text => exact ⟨'/', '/' :: '/' :: text.val, rfl, rfl⟩
  | word name => exact hname name
  | type name isList isOptional =>
    obtain ⟨c, w, hw, hc⟩ := hname name
    exact ⟨c, _, by rw [text, hw, List.cons_append], hc⟩
  | string content => exact ⟨'"', _, rfl, rfl⟩
  | number isNegative digits =>
    obtain ⟨_ | ⟨c, w⟩, hne, hall⟩ := digits
    · exact absurd rfl hne
    · cases isNegative with
      | false => exact ⟨c, w, rfl, Start.of_isDigit (hall c List.mem_cons_self)⟩
      | true => exact ⟨'-', c :: w, rfl, rfl⟩
  | mark m => cases m <;> exact ⟨_, _, rfl, rfl⟩

theorem Token.start_eq_of_append_eq {t u : Token} {r s : List Char}
    (h : t.text ++ r = u.text ++ s) : t.start = u.start := by
  obtain ⟨c, w, htext, hstart⟩ := t.exists_text_eq_cons
  obtain ⟨c', w', htext', hstart'⟩ := u.exists_text_eq_cons
  rw [htext, htext', List.cons_append, List.cons_append] at h
  rw [← hstart, ← hstart', (List.cons.inj h).1]

/-- No token starts with a blank. -/
theorem isBlankChar_of_start {t : Token} {c : Char} (h : .of c = t.start) :
    isBlankChar c = false := by
  rw [Bool.eq_false_iff]
  intro hblank
  simp only [isBlankChar, Bool.or_eq_true, beq_iff_eq] at hblank
  cases t with
  | mark m => cases m <;> rcases hblank with ((rfl | rfl) | rfl) | rfl <;> revert h <;> decide
  | _ =>
    simp only [Token.start] at h
    rcases hblank with ((rfl | rfl) | rfl) | rfl <;> revert h <;> decide

/-- Only documentation starts with a slash. -/
theorem exists_docLine_of_start {t : Token} (h : t.start = .slash) : ∃ text, t = .docLine text := by
  cases t with
  | docLine text => exact ⟨text, rfl⟩
  | _ => simp [Token.start] at h

/-- Nothing is skipped before a token. -/
theorem skipFrom_token (t : Token) (o : Nat) (r : List Char) :
    skipFrom false o (t.text ++ r) = ⟨o, t.text ++ r⟩ := by
  obtain ⟨c, w, htext, hstart⟩ := t.exists_text_eq_cons
  have hcomment : startsComment (t.text ++ r) = false := by
    rw [Bool.eq_false_iff, ne_eq, startsComment_iff]
    rintro ⟨rest, hrest, hslash⟩
    rw [htext, List.cons_append] at hrest
    obtain ⟨rfl, hrest⟩ := List.cons.inj hrest
    obtain ⟨text, rfl⟩ := exists_docLine_of_start hstart.symm
    obtain rfl : '/' :: '/' :: text.val = w := by simpa [Token.text] using htext
    obtain rfl : '/' :: (text.val ++ r) = rest := by simpa using hrest
    exact absurd (hslash '/' rfl) (by decide)
  rw [htext, List.cons_append] at hcomment ⊢
  rw [skipFrom, if_neg (by simp [isBlankChar_of_start hstart]), if_neg (by simp [hcomment])]

/-! ## Whole comments -/

theorem skipFrom_line {body : List Char} (hline : ∀ c ∈ body, (!isLineEnd c) = true)
    {cs : List Char} (hend : StartsLine cs) (o : Nat) :
    skipFrom true o (body ++ cs) = skipFrom false (o + byteLength body) cs := by
  induction body generalizing o with
  | nil =>
    cases cs with
    | nil => rfl
    | cons c cs =>
      have hc : isLineEnd c = true := by simpa using hend c rfl
      simp [skipFrom, hc, isBlankChar_of_isLineEnd hc]
  | cons c body ih =>
    rw [List.forall_mem_cons] at hline
    rw [List.cons_append, skipFrom, hline.1, ih hline.2, byteLength_cons, Nat.add_assoc]

theorem skipFrom_comment {body cs : List Char} (hline : ∀ c ∈ body, (!isLineEnd c) = true)
    (hslash : Stops (· == '/') body) (hend : StartsLine cs) (o : Nat) :
    skipFrom false o ('/' :: '/' :: (body ++ cs)) =
      skipFrom false (o + '/'.utf8Size + '/'.utf8Size + byteLength body) cs := by
  have hstarts : startsComment ('/' :: '/' :: (body ++ cs)) = true :=
    startsComment_iff.mpr ⟨_, rfl, (stops_slash_append hend _).mpr hslash⟩
  rw [skipFrom, if_neg (by decide), if_pos hstarts, skipFrom]
  rw [show (!isLineEnd '/') = true from rfl, skipFrom_line hline hend]

end SchemaFilter.SchemaText
