import SchemaFilter.Proofs.Grammar.Matching

/-!
# Where parts stand

The parts that a match yields stand in the text one after the other, and the parts of a part stand
within it. This holds for every grammar, since a cursor only moves forward.

Main definitions and results:

* `Span.Covers`: a span is where some characters of a text stand;
* `Placed`: parts in order, each with its own parts inside;
* `Expr.placed_of_match?`: the parts of a match are placed.
-/

namespace SchemaFilter

/-- The characters `w` stand in the source at the span, whose ends are places between characters. -/
def Span.Covers (source : List Char) (s : Span) (w : List Char) : Prop :=
  ∃ before after, source = before ++ w ++ after ∧ s.start = byteLength before ∧
    s.stop = byteLength before + byteLength w

/-- The span lies inside the other one. -/
def Span.Within (s outer : Span) : Prop := outer.start ≤ s.start ∧ s.stop ≤ outer.stop

/-- The span ends before the other one starts, or where it starts. -/
def Span.Before (s t : Span) : Prop := s.stop ≤ t.start

theorem Span.Covers.start_le_stop {source w : List Char} {s : Span} (h : s.Covers source w) :
    s.start ≤ s.stop := by
  obtain ⟨before, after, -, hstart, hstop⟩ := h
  omega

namespace Grammar

variable {σ : Type} {source : List Char} {lo mid hi : Nat}

/-- The parts stand in the source between the offsets, one after the other, and each has its own
    parts inside. -/
inductive Placed (source : List Char) : Nat → Nat → List (Node σ) → Prop
  | nil {lo hi : Nat} (h : lo ≤ hi) : Placed source lo hi []
  | cons {lo hi : Nat} {n : Node σ} {ns : List (Node σ)} (covers : n.span.Covers source n.text)
      (start : lo ≤ n.span.start) (inside : Placed source n.span.start n.span.stop n.children)
      (others : Placed source n.span.stop hi ns) : Placed source lo hi (n :: ns)

/-- The part stands in the source, with its own parts inside. -/
structure Node.Lies (source : List Char) (n : Node σ) : Prop where
  covers : n.span.Covers source n.text
  inside : Placed source n.span.start n.span.stop n.children

variable {n : Node σ} {ms ns : List (Node σ)}

theorem Placed.le (h : Placed source lo hi ns) : lo ≤ hi := by
  induction h with
  | nil h => exact h
  | cons covers start _ _ _ ih => exact Nat.le_trans start (Nat.le_trans covers.start_le_stop ih)

theorem Placed.mono_left {lo' : Nat} (h : Placed source lo hi ns) (hle : lo' ≤ lo) :
    Placed source lo' hi ns := by
  cases h with
  | nil h => exact .nil (Nat.le_trans hle h)
  | cons covers start inside others => exact .cons covers (Nat.le_trans hle start) inside others

theorem Placed.append (h : Placed source lo mid ms) (h' : Placed source mid hi ns) :
    Placed source lo hi (ms ++ ns) := by
  induction h with
  | nil h => exact h'.mono_left h
  | cons covers start inside _ _ ih => exact .cons covers start inside (ih h')

/-- Each of the parts lies between the offsets. -/
theorem Placed.lies_of_mem (h : Placed source lo hi ns) (hn : n ∈ ns) :
    n.Lies source ∧ n.span.Within ⟨lo, hi⟩ := by
  induction h with
  | nil => cases hn
  | cons covers start inside others _ ih =>
    obtain rfl | hn := List.mem_cons.mp hn
    · exact ⟨⟨covers, inside⟩, start, others.le⟩
    · obtain ⟨hlies, hlo, hhi⟩ := ih hn
      exact ⟨hlies, Nat.le_trans start (Nat.le_trans covers.start_le_stop hlo), hhi⟩

/-- The parts do not overlap, and they are in the order of the text. -/
theorem Placed.pairwise (h : Placed source lo hi ns) :
    (ns.map (·.span)).Pairwise Span.Before := by
  induction h with
  | nil => exact .nil
  | cons _ _ _ others _ ih =>
    rw [List.map_cons, List.pairwise_cons]
    refine ⟨?_, ih⟩
    simp only [List.mem_map]
    rintro _ ⟨m, hm, rfl⟩
    exact (others.lies_of_mem hm).2.1

/-! ## Matches -/

/-- The cursor is a place in the source. -/
def Cursor.On (source : List Char) (c : Cursor) : Prop := ∃ w, (Cursor.start source).Passes w c

variable {e : Expr σ} {skip : Cursor → Cursor} {c d : Cursor}

theorem Cursor.On.passes {w : List Char} (h : c.On source) (hw : c.Passes w d) : d.On source := by
  obtain ⟨v, hv⟩ := h
  exact ⟨v ++ w, hv.trans hw⟩

theorem Cursor.On.skipped (h : c.On source) (hskip : Forward skip) : (skip c).On source := by
  obtain ⟨w, hw⟩ := hskip c
  exact h.passes hw

theorem Cursor.On.covers {w : List Char} (h : c.On source) (hw : c.Passes w d) :
    (⟨c.offset, d.offset⟩ : Span).Covers source w := by
  obtain ⟨v, hv⟩ := h
  have hsource : source = v ++ c.rest := hv.rest
  have hoffset : c.offset = byteLength v := by rw [hv.offset, Cursor.start, Nat.zero_add]
  refine ⟨v, d.rest, ?_, hoffset, ?_⟩
  · rw [hsource, hw.rest, List.append_assoc]
  · rw [hw.offset, hoffset]

theorem placed_nil (hskip : Forward skip) (h : e.match? skip c = some (d, ns)) :
    Placed source c.offset d.offset ([] : List (Node σ)) := by
  obtain ⟨w, hw, -⟩ := Expr.match?_passes hskip h
  exact .nil (by rw [hw.offset]; exact Nat.le_add_right _ _)

theorem placed_skip (hskip : Forward skip) (h : Placed source (skip c).offset hi ns) :
    Placed source c.offset hi ns := by
  obtain ⟨w, hw⟩ := hskip c
  exact h.mono_left (by rw [hw.offset]; exact Nat.le_add_right _ _)

theorem Rounds.placed (hskip : Forward skip)
    (he : ∀ {c d ns}, c.On source → e.match? skip c = some (d, ns) →
      Placed source c.offset d.offset ns)
    (h : Rounds e skip c ns d) (hc : c.On source) : Placed source c.offset d.offset ns := by
  induction h with
  | none c => exact .nil (Nat.le_refl _)
  | more first _ ih =>
    obtain ⟨w, hw, -⟩ := Expr.match?_passes hskip first
    have hhead := placed_skip hskip (he (hc.skipped hskip) first)
    exact hhead.append (ih ((hc.skipped hskip).passes hw))

theorem placed_between {s : σ} (hc : c.On source) {w : List Char} (hw : c.Passes w d)
    (h : Placed source c.offset d.offset ns) :
    Placed source c.offset d.offset [.between s c d ns] := by
  have hcovers := hc.covers hw
  rw [← hw.textTo] at hcovers
  exact .cons hcovers (Nat.le_refl _) h (.nil (Nat.le_refl _))

/-- The parts of a match stand in order between its cursors. -/
theorem Expr.placed_of_match? (hskip : Forward skip) (hc : c.On source)
    (h : e.match? skip c = some (d, ns)) : Placed source c.offset d.offset ns := by
  induction e generalizing skip c d ns with
  | word w =>
    obtain ⟨hw, rfl⟩ := match?_word.mp h
    exact placed_nil hskip h
  | char accepts =>
    obtain ⟨-, rfl⟩ := match?_char.mp h
    exact placed_nil hskip h
  | atEnd =>
    obtain ⟨-, rfl, rfl⟩ := match?_atEnd.mp h
    exact placed_nil hskip h
  | notAhead e _ =>
    obtain ⟨-, rfl, rfl⟩ := match?_notAhead.mp h
    exact placed_nil hskip h
  | seq e₁ e₂ ih₁ ih₂ =>
    obtain ⟨b, ns₁, ns₂, h₁, h₂, rfl⟩ := match?_seq.mp h
    obtain ⟨v, hv, -⟩ := match?_passes hskip h₁
    exact (ih₁ hskip hc h₁).append
      (placed_skip hskip (ih₂ hskip ((hc.passes hv).skipped hskip) h₂))
  | choice e₁ e₂ ih₁ ih₂ =>
    obtain h₁ | ⟨-, h₂⟩ := match?_choice.mp h
    · exact ih₁ hskip hc h₁
    · exact ih₂ hskip hc h₂
  | optional e ih =>
    obtain h₁ | ⟨-, rfl, rfl⟩ := match?_optional.mp h
    · exact ih hskip hc h₁
    · exact .nil (Nat.le_refl _)
  | many e ih =>
    rw [match?] at h
    split at h
    · obtain ⟨rfl, rfl⟩ := Prod.mk.inj (Option.some.inj h)
      exact .nil (Nat.le_refl _)
    · next b ns₁ h₁ =>
      obtain ⟨rfl, rfl⟩ := Prod.mk.inj (Option.some.inj h)
      obtain ⟨v, hv, -⟩ := match?_passes hskip h₁
      exact (ih hskip hc h₁).append ((rounds_repeatStep e skip b.rest.length b).placed hskip
        (fun hc h => ih hskip hc h) (hc.passes hv))
  | phrase s e ih =>
    obtain ⟨w, hw, -⟩ := match?_passes hskip h
    obtain ⟨ms, hbody, rfl⟩ := match?_phrase.mp h
    exact placed_between hc hw (ih hskip hc hbody)
  | compact s e ih =>
    obtain ⟨w, hw, -⟩ := match?_passes hskip h
    obtain ⟨ms, hbody, rfl⟩ := match?_compact.mp h
    exact placed_between hc hw (ih forward_id hc hbody)
  | token s e _ =>
    obtain ⟨w, hw, -⟩ := match?_passes hskip h
    obtain ⟨ms, hbody, rfl⟩ := match?_token.mp h
    exact placed_between hc hw (placed_nil forward_id hbody)

end Grammar

end SchemaFilter
