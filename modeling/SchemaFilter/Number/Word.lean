/-!
# Machine integers

Which integers a 64-bit integer with sign can hold.
-/

namespace SchemaFilter

/-- The 64-bit integer of the given value, if there is one. -/
def int64OfInt? (i : Int) : Option Int64 :=
  if Int64.minValue.toInt ≤ i ∧ i ≤ Int64.maxValue.toInt then some (Int64.ofInt i) else none

/-- The value is kept. -/
theorem toInt_of_int64OfInt? {i : Int} {n : Int64} (h : int64OfInt? i = some n) : n.toInt = i := by
  unfold int64OfInt? at h
  split at h
  · next hi =>
    rw [← Option.some.inj h]
    have h₁ : Int64.minValue.toInt = -9223372036854775808 := by decide
    have h₂ : Int64.maxValue.toInt = 9223372036854775807 := by decide
    exact Int64.toInt_ofInt_of_le (by omega) (by omega)
  · simp at h

/-- Every 64-bit integer is found by its value. -/
theorem int64OfInt?_toInt (n : Int64) : int64OfInt? n.toInt = some n := by
  rw [int64OfInt?, if_pos ⟨Int64.minValue_le_toInt n, Int64.toInt_le n⟩, Int64.ofInt_toInt]

/-- The range of 64 bits with sign, spelled out. -/
theorem int64OfInt?_eq (i : Int) :
    int64OfInt? i =
      if -0x8000000000000000 ≤ i ∧ i < 0x8000000000000000 then some (.ofInt i) else none := by
  have hmin : Int64.minValue.toInt = -0x8000000000000000 := by decide
  have hmax : Int64.maxValue.toInt = 0x7fffffffffffffff := by decide
  rw [int64OfInt?, hmin, hmax]
  split
  · next hi => exact (if_pos (by omega)).symm
  · next hi => exact (if_neg (by omega)).symm

theorem isSome_int64OfInt? {i : Int} :
    (int64OfInt? i).isSome = true ↔ -0x8000000000000000 ≤ i ∧ i < 0x8000000000000000 := by
  rw [int64OfInt?_eq]
  split
  · next hi => exact iff_of_true rfl hi
  · next hi => exact iff_of_false Bool.false_ne_true hi

end SchemaFilter
