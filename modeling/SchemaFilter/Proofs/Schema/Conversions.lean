import Mathlib.Data.List.TakeWhile
import SchemaFilter.Proofs.Schema.Spelling

/-!
# Conversions

The reader computes a number from its digits, the type that a name stands for, and the content of a
documentation line. Here it is proved that these are what the words of the language mean.

Results:

* `integerValue_number`: the number that is written;
* `typeMeans_iff`: the type that is meant;
* `saysLine_iff`: the content of a documentation line.
-/

namespace SchemaFilter.SchemaText

open Grammar

/-! ## Numbers -/

/-- Reading digits from the first to the last gives the sum of their values by place. -/
theorem digitsValue_eq (cs : List Char) :
    digitsValue cs = Nat.ofDigits 10 (cs.reverse.map fun c => c.toNat - '0'.toNat) := by
  rw [Nat.ofDigits_eq_foldr, List.foldr_map, List.foldr_reverse, digitsValue]
  simp only [Nat.cast_id, Nat.add_comm, Nat.mul_comm]

theorem integerValue_number (isNegative : Bool) (digits : Digits) :
    integerValue (Token.number isNegative digits).text = writtenInteger isNegative digits := by
  cases isNegative with
  | false =>
    show integerValue digits.val = _
    unfold integerValue
    split
    · next ds h => exact absurd h (digits.ne_minus_cons ds)
    · rw [digitsValue_eq, writtenInteger, if_neg Bool.false_ne_true]
  | true =>
    show -(digitsValue digits.val : Int) = _
    rw [digitsValue_eq, writtenInteger, if_pos rfl]

/-- A number means something if a 64-bit integer can hold it. -/
theorem ArgumentDef.value?_number (isNegative : Bool) (digits : Digits) :
    (number isNegative digits).value? =
      (int64OfInt? (writtenInteger isNegative digits)).map .int := by
  rw [int64OfInt?_eq]
  simp only [value?]
  split <;> rfl

/-! ## Types -/

theorem ofName?_eq_some_iff {name : String} {type : ScalarType} :
    ScalarType.ofName? name = some type ↔ name ∈ scalarNames type := by
  constructor
  · intro h
    unfold ScalarType.ofName? at h
    split at h <;> cases h <;> simp [scalarNames]
  · intro h
    cases type <;> simp only [scalarNames, List.mem_cons, List.not_mem_nil, or_false] at h <;>
      rcases h with rfl | rfl <;> rfl

/-- The type that a name means is the one that is read. -/
theorem typeMeans_iff {name : String} {type : FieldType} :
    TypeMeans name type ↔ type = .ofName name := by
  rw [FieldType.ofName]
  cases hname : ScalarType.ofName? name with
  | none =>
    have hnone : ∀ t, name ∉ scalarNames t := by
      intro t ht
      rw [← ofName?_eq_some_iff, hname] at ht
      cases ht
    constructor
    · rintro (⟨ht⟩ | _)
      · exact absurd ht (hnone _)
      · rfl
    · rintro rfl
      exact .relation hnone
  | some t =>
    have ht : name ∈ scalarNames t := ofName?_eq_some_iff.mp hname
    constructor
    · rintro (⟨ht'⟩ | ⟨hnone⟩)
      · rw [← ofName?_eq_some_iff, hname] at ht'
        rw [Option.some.inj ht']
      · exact absurd ht (hnone t)
    · rintro rfl
      exact .scalar ht

/-! ## Documentation lines -/

/-- Dropping the triples of slashes at the start of a text leaves what comes after them. -/
theorem afterSlashes_iff {cs rest : List Char} : AfterSlashes cs rest ↔ rest = dropSlashes cs := by
  constructor
  · intro h
    induction h with
    | triple _ ih => rw [ih, dropSlashes]
    | @done rest h =>
      unfold dropSlashes
      split
      · next cs => exact absurd ⟨cs, rfl⟩ h
      · rfl
  · rintro rfl
    fun_induction dropSlashes cs with
    | case1 cs ih => exact .triple ih
    | case2 cs h =>
      refine .done ?_
      rintro ⟨tail, rfl⟩
      exact h tail rfl

theorem dropWhile_eq_iff {p : Char → Bool} {cs rest : List Char} :
    cs.dropWhile p = rest ↔
      (∃ before, cs = before ++ rest ∧ ∀ c ∈ before, p c = true) ∧ Stops p rest := by
  constructor
  · rintro rfl
    refine ⟨⟨cs.takeWhile p, List.takeWhile_append_dropWhile.symm,
      fun c hc => List.mem_takeWhile_imp hc⟩, fun c hc => ?_⟩
    have hhead := List.head?_dropWhile_not p cs
    rw [Option.mem_def.mp hc] at hhead
    simpa using hhead
  · rintro ⟨⟨before, rfl, hbefore⟩, hstop⟩
    rw [List.dropWhile_append_of_pos hbefore]
    cases rest with
    | nil => rfl
    | cons c rest => rw [List.dropWhile_cons_of_neg (by simp [hstop c rfl])]

/-- Cutting the blanks from both ends of a text leaves what stands between them. -/
theorem isBetweenBlanks_iff {content cs : List Char} :
    IsBetweenBlanks content cs ↔ content = trimBlank cs := by
  rw [trimBlank, eq_comm, List.reverse_eq_iff, dropWhile_eq_iff]
  constructor
  · rintro ⟨⟨before, after, rfl, hbefore, hafter⟩, hstart, hstop⟩
    refine ⟨?_, hstop⟩
    rw [List.dropWhile_append_of_pos hbefore]
    cases content with
    | nil =>
      have hdrop : after.dropWhile isBlank = [] := List.dropWhile_eq_nil_iff.mpr hafter
      exact ⟨[], by simp [hdrop]⟩
    | cons c content =>
      rw [List.cons_append, List.dropWhile_cons_of_neg (by simp [hstart c rfl])]
      exact ⟨after.reverse, by simp, by simpa using hafter⟩
  · rintro ⟨⟨after, hafter, hblank⟩, hstop⟩
    have hdrop : cs.dropWhile isBlank = content ++ after.reverse := by
      rw [← List.reverse_inj, hafter]
      simp
    obtain ⟨⟨before, hcs, hbefore⟩, hstart⟩ := dropWhile_eq_iff.mp hdrop
    exact ⟨⟨before, after.reverse, hcs, hbefore, by simpa using hblank⟩, stops_of_append hstart,
      hstop⟩

theorem saysLine_iff {line : LineText} {content : List Char} :
    SaysLine line content ↔ content = trimBlank (dropSlashes line.val) := by
  simp only [SaysLine, afterSlashes_iff, isBetweenBlanks_iff, exists_eq_left]

end SchemaFilter.SchemaText
