import SchemaFilter.Filter.Accessor
import SchemaFilter.Proofs.Compile.Typing

/-!
# Rules with accessors

What an accessor reads is of the type that its rule declares. Once the rule has been checked against
the schema, the value can therefore be refused only for what its type leaves open: for being null or
NaN under ordering, and for being null or having a null element under membership.

Results:

* `AccessorType.holds_toValue`: what is read at a type can be held by fields of the declared type;
* `ParameterRule.Suits.admits_iff_takes`: the values of its declared type that a rule takes;
* `leaf_of_accessor`: when the leaf of a checked rule is built, which leaf it is, and how it fails.
-/

namespace SchemaFilter

variable {α : Type}

/-! ## What is read at a type -/

theorem ScalarType.has_toValue (s : ScalarType) (x : s.Data) : s.Has (s.toValue x) := by
  cases s <;> constructor

namespace AccessorType

theorem isReadable_of_isElement {t : AccessorType} (h : t.isElement) : t.isReadable := by
  induction t with
  | scalar s => rfl
  | optional t ih => exact ih h
  | list t _ => cases h

/-- Elements of lists are declared to be single values. -/
theorem cardinality_of_isElement {t : AccessorType} (h : t.isElement) :
    t.valueType.cardinality = .single := by
  induction t with
  | scalar s => rfl
  | optional t ih => exact ih h
  | list t _ => cases h

/-- What is read at a type can be held by fields of the declared type. -/
theorem holds_toValue {t : AccessorType} (h : t.isReadable) (x : t.Data) :
    t.valueType.cardinality.Holds t.valueType.scalar (t.toValue x) := by
  induction t with
  | scalar s => exact .inr (s.has_toValue x)
  | optional t ih =>
    cases x with
    | none =>
      cases hc : t.valueType.cardinality <;> simp [valueType, hc, Cardinality.Holds, toValue]
    | some x => exact ih h x
  | list t ih =>
    refine .inr ⟨_, rfl, ?_⟩
    intro e he
    obtain ⟨x, _, rfl⟩ := List.mem_map.mp he
    have hx := ih (isReadable_of_isElement h) x
    rw [cardinality_of_isElement h] at hx
    exact hx

end AccessorType

/-! ## Values of the declared type -/

/-- The values that a restriction takes among those of a type that it can compare: equality takes
    all of them, ordering those that are neither null nor NaN, and membership those that are not
    null and have no null element. -/
def Restriction.Takes (r : Restriction) (v : Value) : Prop :=
  match r with
  | equals | notEquals => True
  | greaterThan | greaterThanOrEquals | lessThan | lessThanOrEquals =>
    v ≠ .null ∧ ∀ x, v = .float x → x.isNaN = false
  | isIn | notIn => v ≠ .null ∧ ∀ elements, v = .list elements → .null ∉ elements

/-- A value of an orderable type stands in an order, unless it is NaN. -/
theorem isOrdered_of_has {type : ScalarType} {v : Value} (h : type.Has v) (ho : type.isOrderable)
    (hnan : ∀ x, v = .float x → x.isNaN = false) : v.isOrdered := by
  cases h with
  | float x => simp [Value.isOrdered, hnan x rfl]
  | boolean | json | bytes => cases ho
  | _ => rfl

namespace ParameterRule.Suits

variable {r : ParameterRule α} {type : ScalarType} {c : Cardinality} {v : Value}

/-- On a field that it suits, a rule admits a value of its declared type exactly if its restriction
    takes the value. -/
theorem admits_iff_takes (hs : r.Suits type c)
    (hv : r.valueType.cardinality.Holds r.valueType.scalar v) :
    r.restriction.Admits type v ↔ r.restriction.Takes v := by
  have hsingle := hs.eq_single
  have horder := hs.orderable
  rw [hs.valueType_eq] at hv
  generalize r.restriction = restriction at *
  cases restriction with
  | equals | notEquals => exact iff_of_true ((Value.fits_iff type v).mpr ⟨c, hv⟩) trivial
  | greaterThan | greaterThanOrEquals | lessThan | lessThanOrEquals =>
    obtain rfl : c = .single := hsingle (by simp)
    constructor
    · rintro ⟨ho, hf⟩
      refine ⟨?_, (has_of_isOrdered ho hf).2⟩
      rintro rfl
      cases ho
    · rintro ⟨hnull, hnan⟩
      have hhas : type.Has v := hv.resolve_left hnull
      exact ⟨isOrdered_of_has hhas (horder rfl) hnan, (Value.fits_iff type v).mpr ⟨.single, hv⟩⟩
  | isIn | notIn =>
    constructor
    · rintro ⟨elements, rfl, helements⟩
      refine ⟨by simp, ?_⟩
      rintro _ ⟨rfl⟩ hmem
      cases (helements _ hmem).1
    · rintro ⟨hnull, hnone⟩
      obtain ⟨elements, rfl, helements⟩ := hv.resolve_left hnull
      refine ⟨elements, rfl, ?_⟩
      intro e he
      refine ⟨?_, (Value.fitsSingle_iff type e).mpr (helements e he)⟩
      rw [Value.not_isNull_iff]
      rintro rfl
      exact hnone elements rfl he

end ParameterRule.Suits

/-! ## Leaves -/

/-- **What types leave open.** The leaf of a rule with an accessor, on the field that it was checked
    on, is built exactly if its restriction takes the value: always under equality, under ordering
    if the value is neither null nor NaN, and under membership if it is neither null nor has a null
    element. The leaf compares this field with the value as it was read. Every failure is a type
    mismatch at this field. -/
theorem leaf_of_accessor {s : Schema} {model name : String} {restriction : Restriction}
    {a : Accessor α} {group : String} {combine : Combine} {field : FieldInfo}
    (h : (ParameterRule.reading name restriction a group combine).check s model = .ok field)
    (qualifier : String) (input : α) :
    let v := a.type.toValue (a.get input)
    ((∃ p, field.leaf qualifier restriction v = .ok p) ↔ restriction.Takes v) ∧
      (∀ p, field.leaf qualifier restriction v = .ok p →
        p = .leaf ⟨model, name, field.column, qualifier⟩ restriction v) ∧
      ∀ e, field.leaf qualifier restriction v = .error e →
        ∃ expected, e = .typeMismatch model name expected (.value v.kind) := by
  intro v
  obtain ⟨f, type, _, htype, hsuits, rfl⟩ := ParameterRule.check_eq_ok_iff.mp h
  have htakes : restriction.Admits type v ↔ restriction.Takes v :=
    hsuits.admits_iff_takes (AccessorType.holds_toValue a.isReadable (a.get input))
  refine ⟨?_, ?_, ?_⟩
  · rw [← htakes]
    constructor
    · rintro ⟨p, hp⟩
      exact ((FieldInfo.leaf_eq_ok_iff htype).mp hp).1
    · intro hadmits
      exact ⟨_, (FieldInfo.leaf_eq_ok_iff htype).mpr ⟨hadmits, rfl⟩⟩
  · intro p hp
    exact ((FieldInfo.leaf_eq_ok_iff htype).mp hp).2
  · intro e he
    exact FieldInfo.typeMismatch_of_leaf htype he

/-- The years that an input may list, with gaps. -/
def yearsAccessor : Accessor (Option (List (Option Int32))) :=
  ⟨.optional (.list (.optional (.scalar .int))), rfl, id⟩

/-- The books of some years. -/
def yearsRule : ParameterRule (Option (List (Option Int32))) :=
  .reading "year" .isIn yearsAccessor

/-- Of two years a leaf is made, and of a year and a gap none. -/
theorem leaf_of_yearsAccessor :
    ∃ field, yearsRule.check librarySchema "Book" = .ok field ∧
      (∃ p, field.leaf "Book" .isIn (yearsRule.read (some [some 1815, some 1817])) = .ok p) ∧
      ¬∃ p, field.leaf "Book" .isIn (yearsRule.read (some [some 1815, none])) = .ok p := by
  have hcheck : yearsRule.check librarySchema "Book" =
      .ok ⟨"Book", "year", "year", .scalar .int, .single, false⟩ := rfl
  refine ⟨_, hcheck, ?_, ?_⟩
  · have htakes : Restriction.isIn.Takes (.list [.int 1815, .int 1817]) := by
      refine ⟨by simp, ?_⟩
      rintro _ ⟨rfl⟩ hmem
      simp at hmem
    exact (leaf_of_accessor hcheck "Book" (some [some 1815, some 1817])).1.mpr htakes
  · intro hleaf
    have htakes := (leaf_of_accessor hcheck "Book" (some [some 1815, none])).1.mp hleaf
    exact htakes.2 _ rfl (List.mem_of_getElem? (i := 1) rfl)

end SchemaFilter
