import SchemaFilter.Proofs.Json.Documents
import SchemaFilter.Proofs.Json.Scanning

/-!
# Reading what was written

The text of a document is read as that document. The one thing that is assumed is that its doubles
are read back (`ReadsBack`): the fast way of reading numbers can miss a double in its last place.

What a text is read as is stated for the text inside a larger one (`ReadAs`), where any character
that ends a value follows, and apart from the room that is left for nesting, so that the parts of an
array or of an object can be put together.

Main results:

* `Json.readAs_chars`: a document is read from its text wherever that stands;
* `Json.parse?_text`: a document whose doubles are read back and which is nested no deeper than is
  allowed is read from its text.
-/

namespace SchemaFilter.Json

/-! ## One value -/

theorem dropBlank_cons {c : Char} (hc : isBlankChar c = false) (cs : List Char) :
    dropBlank (c :: cs) = c :: cs :=
  List.dropWhile_cons_of_neg (Bool.eq_false_iff.mp hc)

theorem dropBlank_dropBlank (cs : List Char) : dropBlank (dropBlank cs) = dropBlank cs := by
  induction cs with
  | nil => rfl
  | cons c cs ih =>
    by_cases hc : isBlankChar c = true
    · have hdrop : dropBlank (c :: cs) = dropBlank cs := List.dropWhile_cons_of_pos hc
      rw [hdrop, ih]
    · rw [dropBlank_cons (Bool.eq_false_iff.mpr hc), dropBlank_cons (Bool.eq_false_iff.mpr hc)]

theorem dropBlank_append {cs more : List Char} :
    dropBlank (cs ++ more) =
      if dropBlank cs = [] then dropBlank more else dropBlank cs ++ more := by
  simp [dropBlank, List.dropWhile_append, List.isEmpty_iff]

theorem value?_dropBlank (fuel : Nat) (cs : List Char) :
    value? fuel (dropBlank cs) = value? fuel cs := by
  cases fuel with
  | zero => rfl
  | succ fuel => simp only [value?, dropBlank_dropBlank]

theorem elements?_dropBlank (fuel : Nat) (cs : List Char) :
    elements? fuel (dropBlank cs) = elements? fuel cs := by
  cases fuel with
  | zero => rfl
  | succ fuel => simp only [elements?, value?_dropBlank]

theorem members?_dropBlank (fuel : Nat) (cs : List Char) :
    members? fuel (dropBlank cs) = members? fuel cs := by
  cases fuel with
  | zero => rfl
  | succ fuel => simp only [members?, dropBlank_dropBlank]

/-- Nothing else starts with a sign or a digit. -/
theorem value?_of_number? {fuel : Nat} {cs rest : List Char} {n : NumberText}
    (h : number? cs = some (n, rest)) : value? (fuel + 1) cs = some (.number n, rest) := by
  obtain ⟨c, tail, rfl, hc⟩ := head_of_number? h
  have hblank : isBlankChar c = false := by
    refine Bool.eq_false_iff.mpr fun hblank => ?_
    simp only [isBlankChar, Bool.or_eq_true, beq_iff_eq] at hblank
    obtain ((rfl | rfl) | rfl) | rfl := hblank <;> simp at hc
  have hne (d : Char) (hd : d ∈ ['"', '[', '{', 'n', 't', 'f']) : c ≠ d := by
    rintro rfl
    simp only [List.mem_cons, List.not_mem_nil, or_false] at hd
    obtain rfl | rfl | rfl | rfl | rfl | rfl := hd <;> simp at hc
  simp [value?, dropBlank_cons hblank, hne, h]

/-- Only a number is read as one. -/
theorem number?_of_value? {fuel : Nat} {cs rest : List Char} {n : NumberText}
    (h : value? fuel cs = some (.number n, rest)) : number? (dropBlank cs) = some (n, rest) := by
  cases fuel with
  | zero => exact absurd h (by simp [value?])
  | succ fuel =>
    simp only [value?] at h
    split at h
    · simp at h
    · split at h <;> simp at h
    · split at h <;> simp at h
    · simp at h
    · simp at h
    · simp at h
    · simpa using h

theorem value?_closeBracket (fuel : Nat) (cs : List Char) : value? fuel (']' :: cs) = none := by
  have hnumber : number? (']' :: cs) = none := by
    refine Option.eq_none_iff_forall_not_mem.mpr fun found h => ?_
    obtain ⟨c, tail, heq, hc⟩ := head_of_number? h
    obtain ⟨rfl, -⟩ := List.cons.inj heq
    simp at hc
  cases fuel with
  | zero => rfl
  | succ fuel =>
    show (number? (']' :: cs)).map (fun p => (.number p.1, p.2)) = none
    rw [hnumber, Option.map_none]

theorem elements?_closeBracket (fuel : Nat) (cs : List Char) :
    elements? fuel (']' :: cs) = none := by
  cases fuel with
  | zero => rfl
  | succ fuel => rw [elements?, value?_closeBracket]

theorem members?_closeBrace (fuel : Nat) (cs : List Char) : members? fuel ('}' :: cs) = none := by
  cases fuel with
  | zero => rfl
  | succ fuel => rfl

/-- A closing bracket starts no element, so that what is read as elements is no empty array. -/
theorem value?_bracket {fuel : Nat} {cs rest : List Char} {es : List Source}
    (h : elements? fuel cs = some (es, rest)) :
    value? (fuel + 1) ('[' :: cs) = some (.array es, rest) := by
  rw [← elements?_dropBlank] at h
  rw [value?, dropBlank_cons (by decide)]
  simp only
  split
  · next heq =>
    -- the empty array: its closing bracket would have to start an element
    rw [heq, elements?_closeBracket] at h
    cases h
  · rw [h]
    rfl

/-- Nor does a closing brace start a member. -/
theorem value?_brace {fuel : Nat} {cs rest : List Char} {ms : List (List StringUnit × Source)}
    (h : members? fuel cs = some (ms, rest)) :
    value? (fuel + 1) ('{' :: cs) = some (.object ms, rest) := by
  rw [← members?_dropBlank] at h
  rw [value?, dropBlank_cons (by decide)]
  simp only
  split
  · next heq =>
    rw [heq, members?_closeBrace] at h
    cases h
  · rw [h]
    rfl

/-! ## Texts inside a text -/

/-- The characters are read as the value wherever a value can end after them. The fuel is what
    reading a text of their length starts with, and the value is found with as much room as its
    arrays and objects take. -/
def ReadAs (cs : List Char) (j : Json) : Prop :=
  ∃ s : Source,
    (∀ fuel more, 2 * cs.length ≤ fuel → EndsValue more →
      ∃ rest, value? fuel (cs ++ more) = some (s, rest) ∧ dropBlank rest = dropBlank more) ∧
    ∀ room, j.depth ≤ room → s.toJson? room = some j

/-- The characters are read as the elements of an array up to its closing bracket. -/
def ReadAsElements (cs : List Char) (es : List Json) : Prop :=
  ∃ ss : List Source,
    (∀ fuel more, 2 * cs.length ≤ fuel → elements? fuel (cs ++ more) = some (ss, more)) ∧
    ∀ room, elementsDepth es ≤ room → elementsToJson? room ss = some es

/-- The characters are read as the members of an object up to its closing brace. -/
def ReadAsMembers (cs : List Char) (ms : List (String × Json)) : Prop :=
  ∃ ss : List (List StringUnit × Source),
    (∀ fuel more, 2 * cs.length ≤ fuel → members? fuel (cs ++ more) = some (ss, more)) ∧
    ∀ room, membersDepth ms ≤ room → membersToJson? room ss = some ms

/-- What needs no fuel for what is inside. -/
theorem ReadAs.intro {cs : List Char} {j : Json} (s : Source) (hcs : cs ≠ [])
    (hread : ∀ fuel more, EndsValue more → value? (fuel + 1) (cs ++ more) = some (s, more))
    (hvalue : ∀ room, j.depth ≤ room → s.toJson? room = some j) : ReadAs cs j := by
  refine ⟨s, fun fuel more hfuel hmore => ⟨more, ?_, rfl⟩, hvalue⟩
  have hlength : 0 < cs.length := List.length_pos_iff.mpr hcs
  obtain ⟨fuel, rfl⟩ := Nat.exists_eq_succ_of_ne_zero (show fuel ≠ 0 by omega)
  exact hread fuel more hmore

theorem readAs_null : ReadAs (chars .null) .null :=
  .intro .null (List.cons_ne_nil _ _) (fun _ _ _ => rfl) fun _ _ => rfl

theorem readAs_bool (b : Bool) : ReadAs (chars (.bool b)) (.bool b) := by
  cases b with
  | false => exact .intro (.bool false) (List.cons_ne_nil _ _) (fun _ _ _ => rfl) fun _ _ => rfl
  | true => exact .intro (.bool true) (List.cons_ne_nil _ _) (fun _ _ _ => rfl) fun _ _ => rfl

theorem readAs_integer {i : Int} (hi : -0x8000000000000000 ≤ i ∧ i < 0x10000000000000000) :
    ReadAs (chars (.integer i)) (.integer i) := by
  have hnumber := number?_integerChars i
  refine .intro (.number ⟨decide (i < 0), Nat.toDigits 10 i.natAbs, [], none⟩) ?_
    (fun fuel more hmore => ?_) fun room _ => ?_
  · obtain ⟨c, tail, hcs, -⟩ := head_of_number? hnumber
    show integerChars i ≠ []
    simp [hcs]
  · exact value?_of_number? (local_number? _ _ _ more hnumber fun _ => hmore)
  · exact NumberText.value?_of_integer hi

theorem readAs_string (s : String) : ReadAs (chars (.string s)) (.string s) := by
  obtain ⟨units, hread, hdecode⟩ := exists_units_escaped s.toList
  refine .intro (.string units) (List.cons_ne_nil _ _) (fun fuel more hmore => ?_)
    fun room _ => ?_
  · have hquote : isBlankChar '"' = false := by decide
    simp [chars, quoted, value?, dropBlank_cons hquote, hread]
  · show (decodeString? units).map string = _
    simp [decodeString?, hdecode]

/-- Whether the text of a double is read as that double. -/
def ReadsBack (x : Binary64) : Prop := parse? (number x).text = some (number x)

/-- The characters of a double that is read back are those of one number, up to blanks. -/
theorem ReadsBack.exists_number? {x : Binary64} (h : ReadsBack x) :
    ∃ n rest, number? (dropBlank (numberChars x)) = some (n, rest) ∧ dropBlank rest = [] ∧
      n.value? = some (.number x) := by
  obtain ⟨s, hparse, hvalue⟩ := Option.bind_eq_some_iff.mp h
  have htext : (number x).text.toList = numberChars x := String.toList_ofList
  rw [htext, Source.parse?] at hparse
  split at hparse
  · next s' rest hread =>
    split at hparse
    · next hrest =>
      obtain rfl := Option.some.inj hparse
      cases s' with
      | number n =>
        exact ⟨n, rest, number?_of_value? hread, hrest, hvalue⟩
      | null => simp [Source.toJson?] at hvalue
      | bool b => simp [Source.toJson?] at hvalue
      | string units => simp [Source.toJson?] at hvalue
      | array es => simp [Source.toJson?, maxDepth] at hvalue
      | object ms => simp [Source.toJson?, maxDepth, ofMembers] at hvalue
    · exact absurd hparse (by simp)
  · exact absurd hparse (by simp)

theorem readsBack_of_number? {x : Binary64} {n : NumberText}
    (h : number? (numberChars x) = some (n, [])) (hvalue : n.value? = some (.number x)) :
    ReadsBack x := by
  have hparse : Source.parse? (number x).text.toList = some (.number n) := by
    rw [text, String.toList_ofList, chars, Source.parse?, value?_of_number? h]
    rfl
  rw [ReadsBack, parse?, hparse]
  exact hvalue

theorem readAs_number {x : Binary64} (hx : ReadsBack x) :
    ReadAs (chars (.number x)) (.number x) := by
  obtain ⟨n, rest, hnumber, hrest, hvalue⟩ := hx.exists_number?
  refine ⟨.number n, fun fuel more hfuel hmore => ?_, fun room _ => hvalue⟩
  have hne : dropBlank (numberChars x) ≠ [] := by
    obtain ⟨c, tail, hcs, -⟩ := head_of_number? hnumber
    simp [hcs]
  have hlength : 0 < (numberChars x).length := by
    refine List.length_pos_iff.mpr fun hnil => hne ?_
    rw [hnil]
    rfl
  obtain ⟨fuel, rfl⟩ := Nat.exists_eq_succ_of_ne_zero
    (show fuel ≠ 0 by rw [chars] at hfuel; omega)
  refine ⟨rest ++ more, ?_, by rw [dropBlank_append, if_pos hrest]⟩
  -- blanks that were skipped in front of the number alone are skipped here too
  rw [chars, ← value?_dropBlank, dropBlank_append, if_neg hne]
  exact value?_of_number? (local_number? _ _ _ more hnumber fun _ => hmore)

/-! ## Arrays and objects -/

theorem endsValue_cons {c : Char} (hc : c = ',' ∨ c = ']' ∨ c = '}') (cs : List Char) :
    EndsValue (c :: cs) := by
  intro d hd
  obtain rfl := Option.some.inj hd
  exact hc

/-- A value inside an array or an object is followed by the character `c`, which is found behind
    it. -/
theorem ReadAs.exists_rest {cs : List Char} {s : Source} {fuel : Nat} (c : Char)
    (more : List Char) (hc : c = ',' ∨ c = ']' ∨ c = '}')
    (hread : ∀ more, EndsValue more →
      ∃ rest, value? fuel (cs ++ more) = some (s, rest) ∧ dropBlank rest = dropBlank more) :
    ∃ rest, value? fuel (cs ++ c :: more) = some (s, rest) ∧ dropBlank rest = c :: more := by
  obtain ⟨rest, hvalue, hrest⟩ := hread (c :: more) (endsValue_cons hc more)
  refine ⟨rest, hvalue, ?_⟩
  rw [hrest, dropBlank_cons]
  obtain rfl | rfl | rfl := hc <;> decide

/-- The last element, with the closing bracket behind it. -/
theorem ReadAs.lastElement {cs : List Char} {e : Json} (h : ReadAs cs e) :
    ReadAsElements (cs ++ [']']) [e] := by
  obtain ⟨s, hread, hvalue⟩ := h
  refine ⟨[s], fun fuel more hfuel => ?_, fun room hroom => ?_⟩
  · rw [List.length_append, List.length_singleton] at hfuel
    obtain ⟨fuel, rfl⟩ := Nat.exists_eq_succ_of_ne_zero (show fuel ≠ 0 by omega)
    obtain ⟨rest, hvalue, hrest⟩ := ReadAs.exists_rest ']' more (by decide)
      fun more hmore => hread fuel more (by omega) hmore
    simp [elements?, hvalue, hrest]
  · simp only [elementsToJson?, hvalue room (elementsDepth_le.mp hroom e (by simp))]
    rfl

/-- An element, with a comma and the other elements behind it. -/
theorem ReadAs.consElement {cs ds : List Char} {e : Json} {es : List Json} (h : ReadAs cs e)
    (hes : ReadAsElements ds es) : ReadAsElements (cs ++ ',' :: ds) (e :: es) := by
  obtain ⟨s, hread, hvalue⟩ := h
  obtain ⟨ss, hreads, hvalues⟩ := hes
  refine ⟨s :: ss, fun fuel more hfuel => ?_, fun room hroom => ?_⟩
  · rw [List.length_append, List.length_cons] at hfuel
    obtain ⟨fuel, rfl⟩ := Nat.exists_eq_succ_of_ne_zero (show fuel ≠ 0 by omega)
    obtain ⟨rest, hvalue, hrest⟩ := ReadAs.exists_rest ',' (ds ++ more) (by decide)
      fun more hmore => hread fuel more (by omega) hmore
    simp [elements?, hvalue, hrest, hreads fuel more (by omega)]
  · rw [elementsDepth, Nat.max_le] at hroom
    simp only [elementsToJson?, hvalue room hroom.1, hvalues room hroom.2]
    rfl

theorem readAsElements (e : Json) (es : List Json) (he : ReadAs e.chars e)
    (hes : ∀ e ∈ es, ReadAs e.chars e) :
    ReadAsElements (e.chars ++ elementChars es) (e :: es) := by
  induction es generalizing e with
  | nil => exact he.lastElement
  | cons e' es ih =>
    obtain ⟨he', hes⟩ := List.forall_mem_cons.mp hes
    exact he.consElement (ih e' he' hes)

theorem readAs_array {es : List Json} (hes : ∀ e ∈ es, ReadAs e.chars e) :
    ReadAs (chars (.array es)) (.array es) := by
  cases es with
  | nil =>
    refine .intro (.array []) (List.cons_ne_nil _ _) (fun _ _ _ => rfl) fun room hroom => ?_
    obtain ⟨room, rfl⟩ := Nat.exists_eq_succ_of_ne_zero
      (show room ≠ 0 by simp [depth] at hroom; omega)
    rfl
  | cons e es =>
    obtain ⟨he, hes⟩ := List.forall_mem_cons.mp hes
    obtain ⟨ss, hread, hvalue⟩ := readAsElements e es he hes
    refine ⟨.array ss, fun fuel more hfuel hmore => ⟨more, ?_, rfl⟩, fun room hroom => ?_⟩
    · rw [chars, List.length_cons] at hfuel
      obtain ⟨fuel, rfl⟩ := Nat.exists_eq_succ_of_ne_zero (show fuel ≠ 0 by omega)
      exact value?_bracket (hread fuel more (by omega))
    · rw [depth] at hroom
      obtain ⟨room, rfl⟩ := Nat.exists_eq_succ_of_ne_zero (show room ≠ 0 by omega)
      rw [Source.toJson?, hvalue room (by omega)]
      rfl

/-- What is read behind a key and its colon: the value, and further members after a comma. -/
def membersFrom? (fuel : Nat) (key : List StringUnit) (cs : List Char) :
    Option (List (List StringUnit × Source) × List Char) :=
  match value? fuel cs with
  | none => none
  | some (v, rest) =>
    match dropBlank rest with
    | '}' :: rest => some ([(key, v)], rest)
    | ',' :: rest => (members? fuel rest).map fun (ms, rest) => ((key, v) :: ms, rest)
    | _ => none

theorem exists_members?_quoted (key : String) :
    ∃ units, decodeString? units = some key ∧ ∀ fuel cs,
      members? (fuel + 1) (quoted key ++ ':' :: cs) = membersFrom? fuel units cs := by
  obtain ⟨units, hread, hdecode⟩ := exists_units_escaped key.toList
  refine ⟨units, by simp [decodeString?, hdecode], fun fuel cs => ?_⟩
  have hquote : isBlankChar '"' = false := by decide
  have hcolon : isBlankChar ':' = false := by decide
  simp [quoted, members?, dropBlank_cons hquote, dropBlank_cons hcolon, hread]
  rfl

/-- The last member, with the closing brace behind it. -/
theorem ReadAs.lastMember {cs : List Char} {v : Json} (h : ReadAs cs v) (key : String) :
    ReadAsMembers (quoted key ++ ':' :: (cs ++ ['}'])) [(key, v)] := by
  obtain ⟨s, hread, hvalue⟩ := h
  obtain ⟨units, hdecode, hmember⟩ := exists_members?_quoted key
  refine ⟨[(units, s)], fun fuel more hfuel => ?_, fun room hroom => ?_⟩
  · simp only [List.length_append, List.length_cons, List.length_nil] at hfuel
    obtain ⟨fuel, rfl⟩ := Nat.exists_eq_succ_of_ne_zero (show fuel ≠ 0 by omega)
    obtain ⟨rest, hvalue, hrest⟩ := ReadAs.exists_rest '}' more (by decide)
      fun more hmore => hread fuel more (by omega) hmore
    simp [hmember, membersFrom?, hvalue, hrest]
  · simp only [membersToJson?, hdecode, hvalue room (membersDepth_le.mp hroom (key, v) (by simp))]
    rfl

/-- A member, with a comma and the other members behind it. -/
theorem ReadAs.consMember {cs ds : List Char} {v : Json} {ms : List (String × Json)}
    (h : ReadAs cs v) (key : String) (hms : ReadAsMembers ds ms) :
    ReadAsMembers (quoted key ++ ':' :: (cs ++ ',' :: ds)) ((key, v) :: ms) := by
  obtain ⟨s, hread, hvalue⟩ := h
  obtain ⟨ss, hreads, hvalues⟩ := hms
  obtain ⟨units, hdecode, hmember⟩ := exists_members?_quoted key
  refine ⟨(units, s) :: ss, fun fuel more hfuel => ?_, fun room hroom => ?_⟩
  · simp only [List.length_append, List.length_cons] at hfuel
    obtain ⟨fuel, rfl⟩ := Nat.exists_eq_succ_of_ne_zero (show fuel ≠ 0 by omega)
    obtain ⟨rest, hvalue, hrest⟩ := ReadAs.exists_rest ',' (ds ++ more) (by decide)
      fun more hmore => hread fuel more (by omega) hmore
    simp [hmember, membersFrom?, hvalue, hrest, hreads fuel more (by omega)]
  · rw [membersDepth, Nat.max_le] at hroom
    simp only [membersToJson?, hdecode, hvalue room hroom.1, hvalues room hroom.2]
    rfl

theorem readAsMembers (m : String × Json) (ms : List (String × Json)) (hm : ReadAs m.2.chars m.2)
    (hms : ∀ m ∈ ms, ReadAs m.2.chars m.2) :
    ReadAsMembers (memberChars m ++ membersChars ms) (m :: ms) := by
  induction ms generalizing m with
  | nil =>
    obtain ⟨key, v⟩ := m
    simpa [memberChars, membersChars] using hm.lastMember key
  | cons m' ms ih =>
    obtain ⟨key, v⟩ := m
    obtain ⟨hm', hms⟩ := List.forall_mem_cons.mp hms
    simpa [memberChars, membersChars] using hm.consMember key (ih m' hm' hms)

theorem readAs_object {ms : List (String × Json)} (hsorted : Sorted ms)
    (hms : ∀ m ∈ ms, ReadAs m.2.chars m.2) : ReadAs (chars (.object ms)) (.object ms) := by
  cases ms with
  | nil =>
    refine .intro (.object []) (List.cons_ne_nil _ _) (fun _ _ _ => rfl) fun room hroom => ?_
    obtain ⟨room, rfl⟩ := Nat.exists_eq_succ_of_ne_zero
      (show room ≠ 0 by simp [depth] at hroom; omega)
    rfl
  | cons m ms =>
    obtain ⟨hm, hms⟩ := List.forall_mem_cons.mp hms
    obtain ⟨ss, hread, hvalue⟩ := readAsMembers m ms hm hms
    refine ⟨.object ss, fun fuel more hfuel hmore => ⟨more, ?_, rfl⟩, fun room hroom => ?_⟩
    · rw [chars, List.length_cons] at hfuel
      obtain ⟨fuel, rfl⟩ := Nat.exists_eq_succ_of_ne_zero (show fuel ≠ 0 by omega)
      exact value?_brace (hread fuel more (by omega))
    · rw [depth] at hroom
      obtain ⟨room, rfl⟩ := Nat.exists_eq_succ_of_ne_zero (show room ≠ 0 by omega)
      rw [Source.toJson?, hvalue room (by omega), ← ofMembers_of_sorted hsorted]
      rfl

/-! ## Documents -/

/-- A document is read from its text wherever that stands. -/
theorem readAs_chars (j : Json) (hj : j.IsDocument) (hx : ∀ x, number x ∈ j.parts → ReadsBack x) :
    ReadAs j.chars j := by
  induction j using nested_induction with
  | null => exact readAs_null
  | bool b => exact readAs_bool b
  | integer i => exact readAs_integer (isDocument_integer.mp hj)
  | number x => exact readAs_number (hx x (by simp [parts]))
  | string s => exact readAs_string s
  | array es ih =>
    refine readAs_array fun e he => ih e he (isDocument_array.mp hj e he) fun x hxe => hx x ?_
    rw [parts]
    exact List.mem_cons_of_mem _ (mem_elementParts.mpr ⟨e, he, hxe⟩)
  | object ms ih =>
    obtain ⟨hsorted, hms⟩ := isDocument_object.mp hj
    refine readAs_object hsorted fun m hm => ih m hm (hms m hm) fun x hxm => hx x ?_
    rw [parts]
    exact List.mem_cons_of_mem _ (mem_memberParts.mpr ⟨m, hm, hxm⟩)

theorem parse?_text {j : Json} (hj : j.IsDocument) (hx : ∀ x, number x ∈ j.parts → ReadsBack x)
    (hdepth : j.depth ≤ maxDepth) : parse? j.text = some j := by
  obtain ⟨s, hread, hvalue⟩ := readAs_chars j hj hx
  obtain ⟨rest, hs, hrest⟩ := hread (2 * j.chars.length + 2) [] (by omega) endsValue_nil
  rw [List.append_nil] at hs
  have hnil : dropBlank rest = [] := hrest
  have hparse : Source.parse? j.text.toList = some s := by
    rw [text, String.toList_ofList, Source.parse?, hs]
    exact if_pos hnil
  rw [parse?, hparse]
  exact hvalue maxDepth hdepth

end SchemaFilter.Json
