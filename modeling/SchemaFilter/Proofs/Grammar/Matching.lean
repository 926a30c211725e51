import Mathlib.Tactic.SplitIfs
import SchemaFilter.Grammar.Basic

/-!
# What a match means

`Expr.match?` is a function; here every form of expression gets the statement of when it matches, in
which the text between two cursors is named (`Cursor.Passes`) and the rounds of a repetition are a
relation (`Rounds`).

Results:

* `Expr.match?_passes`: a match takes at least `Expr.leastLength` characters;
* `Expr.match?_many`: the match of a repetition, whose body always takes a character;
* `Expr.match?_shifted`: a match does not depend on where in a file its text stands.
-/

namespace SchemaFilter

/-- The span when `k` more bytes stand before its text. -/
def Span.shifted (k : Nat) (s : Span) : Span := ⟨s.start + k, s.stop + k⟩

namespace Grammar

variable {σ : Type}

/-! ## Cursors -/

namespace Cursor

/-- The given characters stand between the cursors. -/
structure Passes (c : Cursor) (w : List Char) (d : Cursor) : Prop where
  rest : c.rest = w ++ d.rest
  offset : d.offset = c.offset + byteLength w

theorem Passes.refl (c : Cursor) : c.Passes [] c := ⟨rfl, rfl⟩

theorem Passes.trans {b c d : Cursor} {v w : List Char} (h : b.Passes v c) (h' : c.Passes w d) :
    b.Passes (v ++ w) d :=
  ⟨by rw [h.rest, h'.rest, List.append_assoc],
    by rw [h'.offset, h.offset, byteLength_append, Nat.add_assoc]⟩

theorem passes_nil {c d : Cursor} : c.Passes [] d ↔ d = c := by
  constructor
  · rintro ⟨hrest, hoffset⟩
    cases c
    cases d
    simp_all
  · rintro rfl
    exact .refl d

theorem passes_append {c d : Cursor} {v w : List Char} :
    c.Passes (v ++ w) d ↔ ∃ b, c.Passes v b ∧ b.Passes w d := by
  constructor
  · rintro ⟨hrest, hoffset⟩
    exact ⟨⟨c.offset + byteLength v, w ++ d.rest⟩, ⟨by rw [hrest, List.append_assoc], rfl⟩, rfl,
      by rw [hoffset, byteLength_append, Nat.add_assoc]⟩
  · rintro ⟨b, h, h'⟩
    exact h.trans h'

theorem passes_cons {c d : Cursor} {ch : Char} {w : List Char} :
    c.Passes (ch :: w) d ↔ ∃ b, c.Passes [ch] b ∧ b.Passes w d :=
  passes_append (v := [ch])

theorem Passes.length {c d : Cursor} {w : List Char} (h : c.Passes w d) :
    c.rest.length = w.length + d.rest.length := by rw [h.rest, List.length_append]

theorem Passes.textTo {c d : Cursor} {w : List Char} (h : c.Passes w d) : c.textTo d = w := by
  rw [Cursor.textTo, h.length, Nat.add_sub_cancel, h.rest, List.take_left]

theorem char?_eq_some {accepts : Char → Bool} {c d : Cursor} :
    c.char? accepts = some d ↔ ∃ ch, c.Passes [ch] d ∧ accepts ch = true := by
  obtain ⟨offset, rest⟩ := c
  cases rest with
  | nil =>
    have hnone : ∀ ch, ¬Passes ⟨offset, []⟩ [ch] d := fun ch h => by simpa using h.rest
    simp [char?, hnone]
  | cons ch rest =>
    simp only [char?, Option.ite_none_right_eq_some, Option.some.injEq]
    constructor
    · rintro ⟨haccepts, rfl⟩
      exact ⟨ch, ⟨rfl, rfl⟩, haccepts⟩
    · rintro ⟨ch', ⟨hrest, hoffset⟩, haccepts⟩
      obtain ⟨rfl, rfl⟩ := List.cons.inj hrest
      exact ⟨haccepts, by cases d; simp_all⟩

theorem word?_eq_some {w : List Char} {c d : Cursor} : c.word? w = some d ↔ c.Passes w d := by
  induction w generalizing c with
  | nil => simp [word?, passes_nil, eq_comm]
  | cons ch w ih =>
    rw [passes_cons, word?, Option.bind_eq_some_iff]
    simp only [char?_eq_some, ih, beq_iff_eq]
    constructor
    · rintro ⟨b, ⟨_, hb, rfl⟩, hd⟩
      exact ⟨b, hb, hd⟩
    · rintro ⟨b, hb, hd⟩
      exact ⟨b, ⟨ch, hb, rfl⟩, hd⟩

end Cursor

/-- The text does not go on with an accepted character. -/
def Stops (accepts : Char → Bool) (rest : List Char) : Prop :=
  ∀ ch ∈ rest.head?, accepts ch = false

/-- A skip moves forward. -/
def Forward (skip : Cursor → Cursor) : Prop := ∀ c : Cursor, ∃ w, c.Passes w (skip c)

theorem forward_id : Forward id := fun c => ⟨[], .refl c⟩

/-! ## The forms of expressions -/

namespace Expr

variable {e e₁ e₂ : Expr σ} {skip : Cursor → Cursor} {c d : Cursor} {ns : List (Node σ)} {s : σ}

theorem match?_word {w : List Char} :
    (word w : Expr σ).match? skip c = some (d, ns) ↔ c.Passes w d ∧ ns = [] := by
  show (c.word? w).map (·, []) = some (d, ns) ↔ _
  simp only [Option.map_eq_some_iff, Cursor.word?_eq_some, Prod.mk.injEq]
  constructor
  · rintro ⟨_, hc, rfl, rfl⟩
    exact ⟨hc, rfl⟩
  · rintro ⟨hc, rfl⟩
    exact ⟨d, hc, rfl, rfl⟩

theorem match?_char {accepts : Char → Bool} :
    (char accepts : Expr σ).match? skip c = some (d, ns) ↔
      (∃ ch, c.Passes [ch] d ∧ accepts ch = true) ∧ ns = [] := by
  show (c.char? accepts).map (·, []) = some (d, ns) ↔ _
  simp only [Option.map_eq_some_iff, Cursor.char?_eq_some, Prod.mk.injEq]
  constructor
  · rintro ⟨_, hc, rfl, rfl⟩
    exact ⟨hc, rfl⟩
  · rintro ⟨hc, rfl⟩
    exact ⟨d, hc, rfl, rfl⟩

theorem match?_atEnd :
    (atEnd : Expr σ).match? skip c = some (d, ns) ↔ c.rest = [] ∧ d = c ∧ ns = [] := by
  show (if c.rest.isEmpty then some (c, []) else none) = some (d, ns) ↔ _
  simp only [Option.ite_none_right_eq_some, List.isEmpty_iff, Option.some.injEq,
    Prod.mk.injEq, @eq_comm _ c d, @eq_comm _ [] ns]

theorem match?_seq :
    (seq e₁ e₂).match? skip c = some (d, ns) ↔
      ∃ b ns₁ ns₂, e₁.match? skip c = some (b, ns₁) ∧
        e₂.match? skip (skip b) = some (d, ns₂) ∧ ns = ns₁ ++ ns₂ := by
  rw [match?]
  grind

theorem match?_choice :
    (choice e₁ e₂).match? skip c = some (d, ns) ↔
      e₁.match? skip c = some (d, ns) ∨
        e₁.match? skip c = none ∧ e₂.match? skip c = some (d, ns) := by
  rw [match?]
  grind

theorem match?_optional :
    (optional e).match? skip c = some (d, ns) ↔
      e.match? skip c = some (d, ns) ∨ e.match? skip c = none ∧ d = c ∧ ns = [] := by
  rw [match?]
  grind

theorem match?_notAhead :
    (notAhead e).match? skip c = some (d, ns) ↔ e.match? skip c = none ∧ d = c ∧ ns = [] := by
  rw [match?]
  grind

theorem match?_phrase :
    (phrase s e).match? skip c = some (d, ns) ↔
      ∃ ms, e.match? skip c = some (d, ms) ∧ ns = [.between s c d ms] := by
  show (e.match? skip c).map (fun p => (p.1, [.between s c p.1 p.2])) = some (d, ns) ↔ _
  rw [Option.map_eq_some_iff]
  grind

theorem match?_compact :
    (compact s e).match? skip c = some (d, ns) ↔
      ∃ ms, e.match? id c = some (d, ms) ∧ ns = [.between s c d ms] := by
  show (e.match? id c).map (fun p => (p.1, [.between s c p.1 p.2])) = some (d, ns) ↔ _
  rw [Option.map_eq_some_iff]
  grind

theorem match?_token :
    (token s e).match? skip c = some (d, ns) ↔
      ∃ ms, e.match? id c = some (d, ms) ∧ ns = [.between s c d []] := by
  show (e.match? id c).map (fun p => (p.1, [.between s c p.1 []])) = some (d, ns) ↔ _
  rw [Option.map_eq_some_iff]
  grind

end Expr

/-! ## Repetitions -/

/-- Matches of an expression one after the other, with a skip before each. -/
inductive Rounds (e : Expr σ) (skip : Cursor → Cursor) : Cursor → List (Node σ) → Cursor → Prop
  | none (c : Cursor) : Rounds e skip c [] c
  | more {b c d : Cursor} {ms ns : List (Node σ)} (first : e.match? skip (skip b) = some (c, ms))
      (others : Rounds e skip c ns d) : Rounds e skip b (ms ++ ns) d

theorem Rounds.trans {e : Expr σ} {skip : Cursor → Cursor} {b c d : Cursor} {ms ns : List (Node σ)}
    (h : Rounds e skip b ms c) (h' : Rounds e skip c ns d) : Rounds e skip b (ms ++ ns) d := by
  induction h with
  | none _ => exact h'
  | more first _ ih =>
    rw [List.append_assoc]
    exact .more first (ih h')

/-- Rounds up to where the body does not match go on after all other rounds. -/
theorem Rounds.exists_others {e : Expr σ} {skip : Cursor → Cursor} {b c d : Cursor}
    {ms ns : List (Node σ)} (h : Rounds e skip b ms c) (hall : Rounds e skip b ns d)
    (hend : e.match? skip (skip d) = Option.none) : ∃ more, Rounds e skip c more d := by
  induction h generalizing ns with
  | none _ => exact ⟨ns, hall⟩
  | more first _ ih =>
    cases hall with
    | none => cases hend.symm.trans first
    | more first' others =>
      obtain ⟨rfl, rfl⟩ := Prod.mk.inj (Option.some.inj (first.symm.trans first'))
      exact ih others

theorem Rounds.passes {e : Expr σ} {skip : Cursor → Cursor} (hskip : Forward skip)
    (he : ∀ {c d ns}, e.match? skip c = some (d, ns) → ∃ w, c.Passes w d) {c d : Cursor}
    {ns : List (Node σ)} (h : Rounds e skip c ns d) : ∃ w, c.Passes w d := by
  induction h with
  | none c => exact ⟨[], .refl c⟩
  | @more b c d ms ns first _ ih =>
    obtain ⟨gap, hgap⟩ := hskip b
    obtain ⟨v, hv⟩ := he first
    obtain ⟨w, hw⟩ := ih
    exact ⟨_, (hgap.trans hv).trans hw⟩

/-- Where as much is skipped the same rounds follow. -/
theorem Rounds.of_skip_eq {e : Expr σ} {skip : Cursor → Cursor} {b c d : Cursor}
    {ns : List (Node σ)} (h : Rounds e skip b ns d) (hskip : skip b = skip c) :
    ∃ d', Rounds e skip c ns d' ∧ skip d' = skip d := by
  cases h with
  | none => exact ⟨c, .none c, hskip.symm⟩
  | more first others =>
    rw [hskip] at first
    exact ⟨d, .more first others, rfl⟩

theorem rounds_repeatStep (e : Expr σ) (skip : Cursor → Cursor) (rounds : Nat) (c : Cursor) :
    Rounds e skip c (repeatStep (fun c => e.match? skip (skip c)) rounds c).2
      (repeatStep (fun c => e.match? skip (skip c)) rounds c).1 := by
  induction rounds generalizing c with
  | zero => exact .none c
  | succ rounds ih =>
    rw [repeatStep]
    split
    · exact .none c
    · next d ns hmatch =>
      split
      · exact .more hmatch (ih d)
      · exact .none c

namespace Expr

variable {e : Expr σ} {skip : Cursor → Cursor}

/-- The least number of characters that a match takes. -/
def leastLength : Expr σ → Nat
  | word text => text.length
  | char _ => 1
  | atEnd | optional _ | many _ | notAhead _ => 0
  | seq first second => first.leastLength + second.leastLength
  | choice first second => min first.leastLength second.leastLength
  | phrase _ body | compact _ body | token _ body => body.leastLength

/-- A match moves forward by the least length of the expression or more. -/
theorem match?_passes (hskip : Forward skip) {c d : Cursor} {ns : List (Node σ)}
    (h : e.match? skip c = some (d, ns)) : ∃ w, c.Passes w d ∧ e.leastLength ≤ w.length := by
  induction e generalizing skip c d ns with
  | word w => exact ⟨w, (match?_word.mp h).1, Nat.le_refl _⟩
  | char _ =>
    obtain ⟨⟨ch, hc, _⟩, _⟩ := match?_char.mp h
    exact ⟨[ch], hc, Nat.le_refl _⟩
  | atEnd =>
    obtain ⟨_, rfl, _⟩ := match?_atEnd.mp h
    exact ⟨[], .refl d, Nat.le_refl _⟩
  | seq e₁ e₂ ih₁ ih₂ =>
    obtain ⟨b, ns₁, ns₂, h₁, h₂, _⟩ := match?_seq.mp h
    obtain ⟨v, hv, hle⟩ := ih₁ hskip h₁
    obtain ⟨gap, hgap⟩ := hskip b
    obtain ⟨w, hw, hle'⟩ := ih₂ hskip h₂
    refine ⟨_, (hv.trans hgap).trans hw, ?_⟩
    simp only [leastLength, List.length_append]
    omega
  | choice e₁ e₂ ih₁ ih₂ =>
    obtain h₁ | ⟨_, h₂⟩ := match?_choice.mp h
    · obtain ⟨w, hw, hle⟩ := ih₁ hskip h₁
      exact ⟨w, hw, Nat.le_trans (Nat.min_le_left _ _) hle⟩
    · obtain ⟨w, hw, hle⟩ := ih₂ hskip h₂
      exact ⟨w, hw, Nat.le_trans (Nat.min_le_right _ _) hle⟩
  | optional e ih =>
    obtain h | ⟨_, rfl, _⟩ := match?_optional.mp h
    · obtain ⟨w, hw, _⟩ := ih hskip h
      exact ⟨w, hw, Nat.zero_le _⟩
    · exact ⟨[], .refl d, Nat.le_refl _⟩
  | many e ih =>
    have he : ∀ {c d ns}, e.match? skip c = some (d, ns) → ∃ w, c.Passes w d := fun h =>
      let ⟨w, hw, _⟩ := ih hskip h
      ⟨w, hw⟩
    rw [match?] at h
    split at h
    · obtain ⟨rfl, rfl⟩ := Prod.mk.inj (Option.some.inj h)
      exact ⟨[], .refl c, Nat.le_refl _⟩
    · next b ns₁ h₁ =>
      obtain ⟨rfl, rfl⟩ := Prod.mk.inj (Option.some.inj h)
      obtain ⟨v, hv⟩ := he h₁
      obtain ⟨w, hw⟩ := (rounds_repeatStep e skip b.rest.length b).passes hskip he
      exact ⟨_, hv.trans hw, Nat.zero_le _⟩
  | notAhead e _ =>
    obtain ⟨_, rfl, _⟩ := match?_notAhead.mp h
    exact ⟨[], .refl d, Nat.le_refl _⟩
  | phrase s e ih =>
    obtain ⟨ms, h, _⟩ := match?_phrase.mp h
    exact ih hskip h
  | compact s e ih =>
    obtain ⟨ms, h, _⟩ := match?_compact.mp h
    exact ih forward_id h
  | token s e ih =>
    obtain ⟨ms, h, _⟩ := match?_token.mp h
    exact ih forward_id h

theorem length_lt_of_match? (hskip : Forward skip) (he : 0 < e.leastLength) {c d : Cursor}
    {ns : List (Node σ)} (h : e.match? skip (skip c) = some (d, ns)) :
    d.rest.length < c.rest.length := by
  obtain ⟨v, hv⟩ := hskip c
  obtain ⟨w, hw, hle⟩ := match?_passes hskip h
  have hc := hv.length
  have hd := hw.length
  omega

theorem match?_repeatStep (hskip : Forward skip) (he : 0 < e.leastLength) (rounds : Nat)
    (c : Cursor) (hle : c.rest.length ≤ rounds) :
    e.match? skip (skip (repeatStep (fun c => e.match? skip (skip c)) rounds c).1) = none := by
  induction rounds generalizing c with
  | zero =>
    rw [repeatStep, Option.eq_none_iff_forall_ne_some]
    rintro ⟨d, ns⟩ h
    have hlt : d.rest.length < c.rest.length := length_lt_of_match? hskip he h
    omega
  | succ rounds ih =>
    rw [repeatStep]
    split
    · next hnone => exact hnone
    · next d ns hmatch =>
      have hlt := length_lt_of_match? hskip he hmatch
      rw [if_pos hlt]
      exact ih d (by omega)

theorem repeatStep_of_rounds (hskip : Forward skip) (he : 0 < e.leastLength) {c d : Cursor}
    {ns : List (Node σ)} (h : Rounds e skip c ns d) (hend : e.match? skip (skip d) = none)
    (rounds : Nat) (hle : c.rest.length ≤ rounds) :
    repeatStep (fun c => e.match? skip (skip c)) rounds c = (d, ns) := by
  induction h generalizing rounds with
  | none c => cases rounds <;> simp [repeatStep, hend]
  | @more b c d ms ns first _ ih =>
    have hlt := length_lt_of_match? hskip he first
    cases rounds with
    | zero => omega
    | succ rounds => simp only [repeatStep, first, if_pos hlt, ih hend rounds (by omega)]

/-- A repetition of what takes characters: no round, or a first one and then rounds up to where the
    body does not match. -/
theorem match?_many (hskip : Forward skip) (he : 0 < e.leastLength) {c d : Cursor}
    {ns : List (Node σ)} :
    (many e).match? skip c = some (d, ns) ↔
      e.match? skip c = none ∧ d = c ∧ ns = [] ∨
        ∃ b ns₁ ns₂, e.match? skip c = some (b, ns₁) ∧ Rounds e skip b ns₂ d ∧
          e.match? skip (skip d) = none ∧ ns = ns₁ ++ ns₂ := by
  constructor
  · intro h
    rw [match?] at h
    split at h
    · next hnone =>
      obtain ⟨rfl, rfl⟩ := Prod.mk.inj (Option.some.inj h)
      exact .inl ⟨hnone, rfl, rfl⟩
    · next b ns₁ h₁ =>
      obtain ⟨rfl, rfl⟩ := Prod.mk.inj (Option.some.inj h)
      exact .inr ⟨b, ns₁, _, h₁, rounds_repeatStep e skip b.rest.length b,
        match?_repeatStep hskip he b.rest.length b (Nat.le_refl _), rfl⟩
  · rintro (⟨hnone, rfl, rfl⟩ | ⟨b, ns₁, ns₂, h₁, hrounds, hend, rfl⟩)
    · simp [match?, hnone]
    · simp [match?, h₁, repeatStep_of_rounds hskip he hrounds hend]

/-! ## Characters -/

theorem match?_char_eq_none {accepts : Char → Bool} {c : Cursor} :
    (char accepts : Expr σ).match? skip c = none ↔ Stops accepts c.rest := by
  obtain ⟨offset, rest⟩ := c
  cases rest <;> simp [match?, Cursor.char?, Stops]

theorem match?_notAhead_char {accepts : Char → Bool} {c d : Cursor} {ns : List (Node σ)} :
    (notAhead (char accepts)).match? skip c = some (d, ns) ↔
      Stops accepts c.rest ∧ d = c ∧ ns = [] := by
  rw [match?_notAhead, match?_char_eq_none]

theorem rounds_char {accepts : Char → Bool} {c d : Cursor} {ns : List (Node σ)} :
    Rounds (char accepts) id c ns d ↔
      ∃ w, c.Passes w d ∧ (∀ ch ∈ w, accepts ch = true) ∧ ns = [] := by
  constructor
  · intro h
    induction h with
    | none c => exact ⟨[], .refl c, by simp, rfl⟩
    | more first _ ih =>
      obtain ⟨⟨ch, hc, hch⟩, rfl⟩ := match?_char.mp first
      obtain ⟨w, hw, hall, rfl⟩ := ih
      exact ⟨ch :: w, hc.trans hw, by simpa [hch] using hall, rfl⟩
  · rintro ⟨w, hw, hall, rfl⟩
    induction w generalizing c with
    | nil =>
      rw [Cursor.passes_nil.mp hw]
      exact .none c
    | cons ch w ih =>
      obtain ⟨b, hb, hd⟩ := Cursor.passes_cons.mp hw
      rw [List.forall_mem_cons] at hall
      exact .more (match?_char.mpr ⟨⟨ch, hb, hall.1⟩, rfl⟩) (ih hd hall.2)

/-- A repeated character takes all accepted ones that follow. -/
theorem match?_many_char {accepts : Char → Bool} {c d : Cursor} {ns : List (Node σ)} :
    (many (char accepts)).match? id c = some (d, ns) ↔
      ∃ w, c.Passes w d ∧ (∀ ch ∈ w, accepts ch = true) ∧ Stops accepts d.rest ∧ ns = [] := by
  have hone : 0 < (char accepts : Expr σ).leastLength := Nat.zero_lt_one
  rw [match?_many forward_id hone]
  simp only [rounds_char, match?_char_eq_none, match?_char, id]
  constructor
  · rintro (⟨hstops, rfl, rfl⟩ | ⟨b, _, _, ⟨⟨ch, hb, hch⟩, rfl⟩, ⟨w, hw, hall, rfl⟩, hstops, rfl⟩)
    · exact ⟨[], .refl d, by simp, hstops, rfl⟩
    · exact ⟨ch :: w, hb.trans hw, by simpa [hch] using hall, hstops, rfl⟩
  · rintro ⟨w, hw, hall, hstops, rfl⟩
    cases w with
    | nil =>
      obtain rfl := Cursor.passes_nil.mp hw
      exact .inl ⟨hstops, rfl, rfl⟩
    | cons ch w =>
      obtain ⟨b, hb, hd⟩ := Cursor.passes_cons.mp hw
      rw [List.forall_mem_cons] at hall
      exact .inr ⟨b, [], [], ⟨⟨ch, hb, hall.1⟩, rfl⟩, ⟨w, hd, hall.2, rfl⟩, hstops, rfl⟩

theorem match?_several_char {accepts : Char → Bool} {c d : Cursor} {ns : List (Node σ)} :
    (several (char accepts)).match? id c = some (d, ns) ↔
      ∃ w, c.Passes w d ∧ w ≠ [] ∧ (∀ ch ∈ w, accepts ch = true) ∧ Stops accepts d.rest ∧
        ns = [] := by
  simp only [several, match?_seq, match?_char, match?_many_char, id]
  constructor
  · rintro ⟨b, _, _, ⟨⟨ch, hb, hch⟩, rfl⟩, ⟨w, hw, hall, hstops, rfl⟩, rfl⟩
    exact ⟨ch :: w, hb.trans hw, by simp, by simpa [hch] using hall, hstops, rfl⟩
  · rintro ⟨_ | ⟨ch, w⟩, hw, hne, hall, hstops, rfl⟩
    · exact absurd rfl hne
    · obtain ⟨b, hb, hd⟩ := Cursor.passes_cons.mp hw
      rw [List.forall_mem_cons] at hall
      exact ⟨b, [], [], ⟨⟨ch, hb, hall.1⟩, rfl⟩, ⟨w, hd, hall.2, hstops, rfl⟩, rfl⟩

end Expr

/-! ## Moved and prolonged texts -/

/-- The cursor when `x` stands after its text. -/
def Cursor.followedBy (c : Cursor) (x : List Char) : Cursor := ⟨c.offset, c.rest ++ x⟩

theorem Cursor.followedBy_nil (c : Cursor) : c.followedBy [] = c := by
  rw [followedBy, List.append_nil]

theorem Cursor.followedBy_inj {c d : Cursor} {x : List Char} :
    c.followedBy x = d.followedBy x ↔ c = d := by
  obtain ⟨o, cs⟩ := c
  obtain ⟨o', ds⟩ := d
  simp [followedBy]

/-- The cursor when `k` more bytes stand before its text. -/
def Cursor.shifted (k : Nat) (c : Cursor) : Cursor := ⟨c.offset + k, c.rest⟩

theorem Cursor.shifted_inj {c d : Cursor} {k : Nat} : c.shifted k = d.shifted k ↔ c = d := by
  obtain ⟨o, cs⟩ := c
  obtain ⟨o', ds⟩ := d
  simp [shifted]

theorem Cursor.Passes.followedBy {c d : Cursor} {w : List Char} (h : c.Passes w d) (x : List Char) :
    (c.followedBy x).Passes w (d.followedBy x) :=
  ⟨by rw [Cursor.followedBy, Cursor.followedBy, h.rest, List.append_assoc], h.offset⟩

theorem Cursor.textTo_followedBy (c d : Cursor) (x : List Char) :
    (c.followedBy x).textTo (d.followedBy x) = c.textTo d := by
  simp only [textTo, followedBy, List.length_append, Nat.add_sub_add_right]
  exact List.take_append_of_le_length (Nat.sub_le _ _)

theorem Node.between_followedBy (s : σ) (c d : Cursor) (x : List Char) (ns : List (Node σ)) :
    Node.between s (c.followedBy x) (d.followedBy x) ns = .between s c d ns := by
  rw [Node.between, Cursor.textTo_followedBy]
  rfl

mutual

/-- The part when `k` more bytes stand before its text. -/
def Node.shifted (k : Nat) : Node σ → Node σ
  | ⟨symbol, span, text, children⟩ => ⟨symbol, span.shifted k, text, shiftedAll k children⟩

/-- The parts when `k` more bytes stand before their text. -/
def shiftedAll (k : Nat) : List (Node σ) → List (Node σ)
  | [] => []
  | n :: ns => n.shifted k :: shiftedAll k ns

end

theorem shiftedAll_eq_map (k : Nat) (ns : List (Node σ)) :
    shiftedAll k ns = ns.map (Node.shifted k) := by
  induction ns with
  | nil => rfl
  | cons n ns ih => rw [shiftedAll, ih, List.map_cons]

theorem Node.shifted_between (k : Nat) (s : σ) (c d : Cursor) (ns : List (Node σ)) :
    (Node.between s c d ns).shifted k =
      .between s (c.shifted k) (d.shifted k) (ns.map (Node.shifted k)) := by
  rw [between, shifted, shiftedAll_eq_map]
  rfl

/-- The match when `k` more bytes stand before its text. -/
def Match.shifted (k : Nat) (found : Match σ) : Match σ :=
  (found.1.shifted k, found.2.map (Node.shifted k))

@[simp] theorem Match.shifted_mk (k : Nat) (c : Cursor) (ns : List (Node σ)) :
    Match.shifted k (c, ns) = (c.shifted k, ns.map (Node.shifted k)) := rfl

theorem repeatStep_shifted (step : Cursor → Option (Match σ)) {k : Nat}
    (hstep : ∀ c : Cursor, step (c.shifted k) = (step c).map (Match.shifted k)) (rounds : Nat)
    (c : Cursor) :
    repeatStep step rounds (c.shifted k) = Match.shifted k (repeatStep step rounds c) := by
  induction rounds generalizing c with
  | zero => rfl
  | succ rounds ih =>
    simp only [repeatStep, hstep]
    cases step c with
    | none => rfl
    | some found =>
      have hlt : (found.1.shifted k).rest.length < (c.shifted k).rest.length ↔
          found.1.rest.length < c.rest.length := Iff.rfl
      simp only [Option.map_some, Match.shifted, hlt, ih]
      split <;> simp

theorem Cursor.char?_shifted (k : Nat) (accepts : Char → Bool) (c : Cursor) :
    (c.shifted k).char? accepts = (c.char? accepts).map (Cursor.shifted k) := by
  obtain ⟨offset, _ | ⟨ch, rest⟩⟩ := c
  · rfl
  · simp only [char?, shifted]
    split <;> simp [Nat.add_right_comm, shifted]

theorem Cursor.word?_shifted (k : Nat) (w : List Char) (c : Cursor) :
    (c.shifted k).word? w = (c.word? w).map (Cursor.shifted k) := by
  induction w generalizing c with
  | nil => rfl
  | cons ch w ih =>
    rw [word?, word?, char?_shifted]
    cases c.char? (· == ch) with
    | none => rfl
    | some d => exact ih d

/-- A match does not depend on what stands before its text. -/
theorem Expr.match?_shifted {e : Expr σ} {skip : Cursor → Cursor} {k : Nat}
    (hskip : ∀ c : Cursor, skip (c.shifted k) = (skip c).shifted k) (c : Cursor) :
    e.match? skip (c.shifted k) = (e.match? skip c).map (Match.shifted k) := by
  induction e generalizing skip c with
  | word w =>
    simp only [match?, Cursor.word?_shifted]
    cases c.word? w <;> simp
  | char accepts =>
    simp only [match?, Cursor.char?_shifted]
    cases c.char? accepts <;> simp
  | atEnd =>
    obtain ⟨offset, rest⟩ := c
    cases rest <;> simp [match?, Cursor.shifted]
  | seq e₁ e₂ ih₁ ih₂ =>
    simp only [match?, ih₁ hskip]
    cases e₁.match? skip c with
    | none => rfl
    | some found =>
      simp only [Option.map_some, Match.shifted, hskip, ih₂ hskip]
      cases e₂.match? skip (skip found.1) <;> simp [Match.shifted]
  | choice e₁ e₂ ih₁ ih₂ =>
    simp only [match?, ih₁ hskip, ih₂ hskip]
    cases e₁.match? skip c <;> simp
  | optional e ih =>
    simp only [match?, ih hskip]
    cases e.match? skip c <;> simp
  | many e ih =>
    simp only [match?, ih hskip]
    cases e.match? skip c with
    | none => simp
    | some found =>
      have hrounds := repeatStep_shifted (fun c => e.match? skip (skip c))
        (fun c => by rw [hskip, ih hskip]) found.1.rest.length found.1
      have hrest : (found.1.shifted k).rest = found.1.rest := rfl
      simp [hrest, hrounds, Match.shifted]
  | notAhead e ih =>
    simp only [match?, ih hskip]
    cases e.match? skip c <;> simp
  | phrase s e ih =>
    simp only [match?, ih hskip]
    cases e.match? skip c <;> simp [Match.shifted, Node.shifted_between]
  | compact s e ih =>
    simp only [match?, @ih id fun _ => rfl]
    cases e.match? id c <;> simp [Match.shifted, Node.shifted_between]
  | token s e ih =>
    simp only [match?, @ih id fun _ => rfl]
    cases e.match? id c <;> simp [Match.shifted, Node.shifted_between]

theorem Rounds.shifted {e : Expr σ} {skip : Cursor → Cursor} {k : Nat}
    (hskip : ∀ c : Cursor, skip (c.shifted k) = (skip c).shifted k) {c d : Cursor}
    {ns : List (Node σ)} (h : Rounds e skip c ns d) :
    Rounds e skip (c.shifted k) (ns.map (Node.shifted k)) (d.shifted k) := by
  induction h with
  | none c => exact .none _
  | @more b c d ms ns first _ ih =>
    rw [List.map_append]
    refine .more ?_ ih
    rw [hskip, Expr.match?_shifted hskip, first, Option.map_some, Match.shifted_mk]

end Grammar

end SchemaFilter
