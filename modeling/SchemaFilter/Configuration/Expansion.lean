/-!
# References to variables

In a configuration text, `${NAME}` and `${NAME:-default}` refer to an environment variable. A text
is read once, from left to right, as segments: references, and the characters outside them.
Expansion puts the value of the variable in the place of each reference; the value is not read
again.

Main statements:

* `written_segments`: the segments make up the text;
* `length_of_atStart?`: reading a reference shortens the text, so that reading ends.
-/

namespace SchemaFilter.Configuration

/-- The values of the environment variables that are set. -/
abbrev Variables := String → Option String

/-- Whether a character can start the name of a variable. -/
def isNameStart (c : Char) : Bool := c.isAlpha || c == '_'

/-- Whether a character can stand in the name of a variable. -/
def isNameChar (c : Char) : Bool := c.isAlphanum || c == '_'

/-- A reference to a variable, with the text that stands for it while it is not set. -/
structure Reference where
  name : List Char
  default? : Option (List Char)
  deriving DecidableEq, Repr

namespace Reference

/-- A default as it is written. -/
def writtenDefault : Option (List Char) → List Char
  | none => []
  | some text => ':' :: '-' :: text

/-- The reference as it is written. -/
def written (r : Reference) : List Char :=
  '$' :: '{' :: r.name ++ writtenDefault r.default? ++ ['}']

/-- The end of a reference after its name, and what follows it. -/
def afterName? : List Char → Option (Option (List Char) × List Char)
  | '}' :: rest => some (none, rest)
  | ':' :: '-' :: cs =>
    match cs.dropWhile (· != '}') with
    | _ :: rest => some (some (cs.takeWhile (· != '}')), rest)
    | [] => none
  | _ => none

/-- The reference at the start of a text, and what follows it. -/
def atStart? : List Char → Option (Reference × List Char)
  | '$' :: '{' :: c :: cs =>
    if isNameStart c then
      (afterName? (cs.dropWhile isNameChar)).map fun (default?, rest) =>
        (⟨c :: cs.takeWhile isNameChar, default?⟩, rest)
    else none
  | _ => none

theorem eq_of_afterName? {cs rest : List Char} {default? : Option (List Char)}
    (h : afterName? cs = some (default?, rest)) : cs = writtenDefault default? ++ '}' :: rest := by
  unfold afterName? at h
  split at h
  · obtain ⟨rfl, rfl⟩ : none = default? ∧ _ = rest := by simpa using h
    rfl
  · next cs =>
    split at h
    · next c tail hd =>
      have hc : c = '}' := by
        have := List.head?_dropWhile_not (· != '}') cs
        simpa [hd] using this
      have hcs : cs.takeWhile (· != '}') ++ cs.dropWhile (· != '}') = cs :=
        List.takeWhile_append_dropWhile
      obtain ⟨rfl, rfl⟩ : some (cs.takeWhile (· != '}')) = default? ∧ tail = rest := by
        simpa using h
      rw [hd, hc] at hcs
      simp only [writtenDefault, List.cons_append, hcs]
    · simp at h
  · simp at h

/-- A reference that is read stands at the start of the text as it is written. -/
theorem eq_of_atStart? {cs rest : List Char} {r : Reference} (h : atStart? cs = some (r, rest)) :
    cs = r.written ++ rest := by
  unfold atStart? at h
  split at h
  · next c cs =>
    split at h
    · obtain ⟨⟨default?, tail⟩, ha, he⟩ := Option.map_eq_some_iff.1 h
      have hcs : cs.takeWhile isNameChar ++ cs.dropWhile isNameChar = cs :=
        List.takeWhile_append_dropWhile
      obtain ⟨rfl, rfl⟩ : _ = r ∧ tail = rest := by simpa using he
      rw [eq_of_afterName? ha] at hcs
      simp [written, hcs]
    · simp at h
  · simp at h

theorem length_of_atStart? {cs rest : List Char} {r : Reference}
    (h : atStart? cs = some (r, rest)) : rest.length < cs.length := by
  rw [eq_of_atStart? h]
  simp only [written, List.cons_append, List.length_cons, List.length_append]
  omega

/-- What a reference stands for: the value of the variable, else the default, else itself. -/
def expanded (vars : Variables) (r : Reference) : List Char :=
  match vars (String.ofList r.name) with
  | some value => value.toList
  | none => r.default?.getD r.written

end Reference

/-- A piece of a configuration text. -/
inductive Segment where
  | plain (c : Char)
  | reference (r : Reference)
  deriving DecidableEq, Repr

namespace Segment

/-- The segment as it is written. -/
def written : Segment → List Char
  | plain c => [c]
  | reference r => r.written

/-- What stands for the segment after expansion. -/
def expanded (vars : Variables) : Segment → List Char
  | plain c => [c]
  | reference r => r.expanded vars

end Segment

/-- The segments of a text. At each place a reference is read if there is one. -/
def segments (cs : List Char) : List Segment :=
  match h : Reference.atStart? cs with
  | some (r, rest) =>
    have := Reference.length_of_atStart? h
    .reference r :: segments rest
  | none =>
    match cs with
    | [] => []
    | c :: cs => .plain c :: segments cs
termination_by cs.length

/-- The segments of a text make up the text. -/
theorem written_segments (cs : List Char) : (segments cs).flatMap Segment.written = cs := by
  fun_induction segments cs with
  | case1 cs r rest h _ ih => simp [Segment.written, ih, Reference.eq_of_atStart? h]
  | case2 => rfl
  | case3 c cs _ ih => simp [Segment.written, ih]

/-- The text with what its references stand for in their places. -/
def expand (vars : Variables) (text : String) : String :=
  String.ofList ((segments text.toList).flatMap (Segment.expanded vars))

end SchemaFilter.Configuration
