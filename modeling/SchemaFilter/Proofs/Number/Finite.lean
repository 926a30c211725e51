import Mathlib.Algebra.Order.Field.Power
import Mathlib.Tactic.GCongr
import Mathlib.Tactic.NormNum
import Mathlib.Tactic.Positivity
import Mathlib.Tactic.Ring
import SchemaFilter.Json.Reader

/-!
# Where rounding stays finite

Every rounded quotient is a real number or an infinity, never NaN, and it is a real number wherever
the quotient is below `2 ^ 1021`, a bound that spares a look at the last rounding step. It holds of
every 64-bit integer and of every finite number over a power of ten, from which it follows that a
number that is read from a JSON text is finite.

Main results:

* `Binary64.isFinite_ofRatio`, `Binary64.isFinite_div`;
* `Json.NumberText.isFinite_of_magnitude?`: the double of a number's digits is finite.
-/

namespace SchemaFilter.Binary64

/-! ## Bits -/

/-- The sign does not touch the exponent bits. -/
theorem exponentBits_ofMagnitude {negative : Bool} {m : Nat} (hm : m < signBit) :
    (ofMagnitude negative m).exponentBits = m / fractionCount := by
  have hbits : (ofMagnitude negative m).bits.toNat = (if negative then signBit else 0) + m := by
    rw [ofMagnitude, UInt64.toNat_ofNat']
    refine Nat.mod_eq_of_lt ?_
    unfold signBit at hm ⊢
    split <;> omega
  rw [exponentBits, hbits]
  unfold signBit fractionCount at *
  split <;> omega

theorem isFinite_ofMagnitude {negative : Bool} {m : Nat} (hm : m < infiniteMagnitude) :
    (ofMagnitude negative m).isFinite = true := by
  have hbits := @exponentBits_ofMagnitude negative m
    (by unfold infiniteMagnitude fractionCount at hm; unfold signBit; omega)
  rw [isFinite, hbits, bne_iff_ne]
  unfold infiniteMagnitude at hm
  unfold fractionCount at *
  omega

theorem isFinite_zero (negative : Bool) : (zero negative).isFinite = true :=
  isFinite_ofMagnitude (by decide)

/-- A change of sign keeps a number finite. -/
theorem isFinite_neg (x : Binary64) : x.neg.isFinite = x.isFinite := by
  have hbits : x.neg.exponentBits = x.exponentBits := by
    have hsign : (2 : Nat) ^ 63 / 2 ^ 52 % 2 ^ 11 = 0 := by decide
    show (x.bits ^^^ 0x8000000000000000).toNat / 2 ^ 52 % 2 ^ 11 = x.bits.toNat / 2 ^ 52 % 2 ^ 11
    rw [UInt64.toNat_xor, show (0x8000000000000000 : UInt64).toNat = 2 ^ 63 from rfl,
      Nat.xor_div_two_pow, Nat.xor_mod_two_pow, hsign, Nat.xor_zero]
  rw [isFinite, isFinite, hbits]

/-! ## Scaling

The two sides of a quotient are compared as rational numbers: a power of two moves from one side to
the other whatever the sign of its exponent.
-/

theorem scale_lt_iff (num den c : Nat) (shift : Int) :
    (scale num den shift).1 < c * (scale num den shift).2 ↔
      (num : ℚ) * 2 ^ shift < c * den := by
  unfold scale
  split
  · next hshift =>
    obtain ⟨k, rfl⟩ := Int.eq_ofNat_of_zero_le hshift
    rw [Int.toNat_natCast, Nat.shiftLeft_eq, zpow_natCast]
    exact_mod_cast Iff.rfl
  · next hshift =>
    obtain ⟨k, hk⟩ := Int.eq_ofNat_of_zero_le (show 0 ≤ -shift by omega)
    rw [show shift = -(k : Int) by omega, neg_neg, Int.toNat_natCast, Nat.shiftLeft_eq, zpow_neg,
      zpow_natCast, mul_inv_lt_iff₀ (by positivity), mul_assoc]
    exact_mod_cast Iff.rfl

theorem scale_den_pos {num den : Nat} (hden : 0 < den) (shift : Int) :
    0 < (scale num den shift).2 := by
  unfold scale
  split
  · exact hden
  · show 0 < den <<< _
    rw [Nat.shiftLeft_eq]
    positivity

/-- The logarithms bound a quotient from above. -/
theorem quotient_lt_of_log2 (num den : Nat) (hden : 0 < den) :
    (num : ℚ) < 2 ^ ((num.log2 : ℤ) - den.log2 + 1) * den := by
  have hnum : (num : ℚ) < 2 ^ (num.log2 + 1) := by exact_mod_cast Nat.lt_log2_self
  have hlow : (2 : ℚ) ^ den.log2 ≤ den := by exact_mod_cast Nat.log2_self_le hden.ne'
  calc (num : ℚ) < 2 ^ (num.log2 + 1) := hnum
    _ = 2 ^ ((num.log2 : ℤ) - den.log2 + 1) * 2 ^ den.log2 := by
      rw [← zpow_natCast 2 den.log2, ← zpow_add₀ two_ne_zero, ← zpow_natCast]
      congr 1
      push_cast
      ring
    _ ≤ 2 ^ ((num.log2 : ℤ) - den.log2 + 1) * den := by gcongr

/-- The logarithm bounds a shifted number from below. -/
theorem zpow_log2_le {num : Nat} (hnum : num ≠ 0) (shift : ℤ) :
    (2 : ℚ) ^ ((num.log2 : ℤ) + shift) ≤ num * 2 ^ shift := by
  have hlow : (2 : ℚ) ^ num.log2 ≤ num := by exact_mod_cast Nat.log2_self_le hnum
  rw [zpow_add₀ two_ne_zero, zpow_natCast]
  gcongr

/-! ## Rounded quotients -/

/-- The logarithms guess the unit, which is one larger where 53 bits are too few for the guess. -/
theorem unitExponent_cases (num den : Nat) :
    ∃ guess : Int, guess = max ((num.log2 : Int) - den.log2 - 53) (-1074) ∧
      (unitExponent num den = guess + 1 ∨ unitExponent num den = guess ∧
        (scale num den (-guess)).1 < 2 * fractionCount * (scale num den (-guess)).2) := by
  refine ⟨_, rfl, ?_⟩
  generalize hguess : max ((num.log2 : Int) - den.log2 - 53) (-1074) = guess
  have hunit : unitExponent num den =
      if 2 * fractionCount * (scale num den (-guess)).2 ≤ (scale num den (-guess)).1 then guess + 1
      else guess := by
    rw [← hguess]
    rfl
  rw [hunit]
  by_cases hlarge : 2 * fractionCount * (scale num den (-guess)).2 ≤ (scale num den (-guess)).1
  · exact Or.inl (if_pos hlarge)
  · exact Or.inr ⟨if_neg hlarge, Nat.lt_of_not_le hlarge⟩

/-- The unit is large enough for 53 bits to hold the quotient. -/
theorem lt_of_unitExponent (num den : Nat) (hden : 0 < den) :
    (num : ℚ) * 2 ^ (-unitExponent num den) < (2 * fractionCount : Nat) * den := by
  obtain ⟨guess, hguess, hunit | ⟨hunit, hsmall⟩⟩ := unitExponent_cases num den
  · -- one unit above the guess, what the logarithms say of the quotient is enough
    have hden' : (0 : ℚ) < den := by exact_mod_cast hden
    calc (num : ℚ) * 2 ^ (-unitExponent num den)
        < 2 ^ ((num.log2 : ℤ) - den.log2 + 1) * den * 2 ^ (-unitExponent num den) := by
          gcongr
          exact quotient_lt_of_log2 num den hden
      _ = 2 ^ ((num.log2 : ℤ) - den.log2 - guess) * den := by
          rw [hunit, mul_right_comm, ← zpow_add₀ two_ne_zero]
          congr 2
          ring
      _ ≤ 2 ^ (53 : ℤ) * den := by
          gcongr
          · exact one_le_two
          · omega
      _ = (2 * fractionCount : Nat) * den := by norm_num [fractionCount]
  · rw [hunit]
    exact (scale_lt_iff num den _ _).mp hsmall

/-- The unit stays clear of the largest one where the quotient does. -/
theorem unitExponent_le {num den : Nat} (hnum : num ≠ 0) (h : num < den * 2 ^ 1021) :
    unitExponent num den ≤ 969 := by
  have hlog : num.log2 < den.log2 + 1022 := by
    refine (Nat.pow_lt_pow_iff_right (a := 2) (by decide)).mp ?_
    calc 2 ^ num.log2 ≤ num := Nat.log2_self_le hnum
      _ < den * 2 ^ 1021 := h
      _ ≤ 2 ^ (den.log2 + 1) * 2 ^ 1021 := by
        exact Nat.mul_le_mul_right _ (Nat.le_of_lt Nat.lt_log2_self)
      _ = 2 ^ (den.log2 + 1022) := by rw [← Nat.pow_add]
  clear h
  obtain ⟨guess, hguess, hunit | ⟨hunit, -⟩⟩ := unitExponent_cases num den
  · omega
  · omega

theorem divRound_le (num den : Nat) : divRound num den ≤ num / den + 1 := by
  unfold divRound
  extract_lets floor rest
  split <;> omega

theorem le_divRound (num den : Nat) : num / den ≤ divRound num den := by
  unfold divRound
  extract_lets floor rest
  split <;> omega

theorem ofRatio_of_ne_zero (negative : Bool) {num : Nat} (den : Nat) (hnum : num ≠ 0) :
    ofRatio negative num den =
      ofMagnitude negative (min ((unitExponent num den + 1074).toNat * fractionCount +
        divRound (scale num den (-unitExponent num den)).1
          (scale num den (-unitExponent num den)).2) infiniteMagnitude) :=
  if_neg hnum

theorem isFinite_ofRatio {negative : Bool} {num den : Nat} (hden : 0 < den)
    (h : num < den * 2 ^ 1021) : (ofRatio negative num den).isFinite = true := by
  by_cases hnum : num = 0
  · rw [ofRatio, if_pos hnum]
    exact isFinite_zero negative
  rw [ofRatio_of_ne_zero negative den hnum]
  have hunit := unitExponent_le hnum h
  have hlt := (scale_lt_iff num den (2 * fractionCount) _).mpr (lt_of_unitExponent num den hden)
  have hdiv := (Nat.div_lt_iff_lt_mul (scale_den_pos hden _)).mpr hlt
  have hround := divRound_le (scale num den (-unitExponent num den)).1
    (scale num den (-unitExponent num den)).2
  -- 2043 units and a rounded quotient of two more are still short of the 2047 of infinity
  refine isFinite_ofMagnitude (Nat.lt_of_le_of_lt (Nat.min_le_left _ _) ?_)
  unfold infiniteMagnitude
  unfold fractionCount at *
  omega

/-- No rounded quotient is NaN. -/
theorem isFinite_ofRatio_of_not_isInfinite {negative : Bool} {num den : Nat}
    (h : (ofRatio negative num den).isInfinite = false) :
    (ofRatio negative num den).isFinite = true := by
  by_cases hnum : num = 0
  · rw [ofRatio, if_pos hnum]
    exact isFinite_zero negative
  rw [ofRatio_of_ne_zero negative den hnum] at h ⊢
  refine isFinite_ofMagnitude (Nat.lt_of_not_le fun hle => ?_)
  have hinf : (infinity negative).isInfinite = true := by cases negative <;> decide
  rw [Nat.le_antisymm (Nat.min_le_right _ _) hle] at h
  exact absurd (hinf.symm.trans h) (by decide)

theorem isFinite_mul {x y : Binary64} (h : (x.mul y).isInfinite = false) :
    (x.mul y).isFinite = true :=
  isFinite_ofRatio_of_not_isInfinite h

theorem isFinite_ofNat {n : Nat} (h : n < 2 ^ 64) : (ofNat n).isFinite = true :=
  isFinite_ofRatio Nat.one_pos (Nat.lt_of_lt_of_le h (by decide +kernel))

theorem isFinite_ofInt {i : Int} (h : i.natAbs < 2 ^ 64) : (ofInt i).isFinite = true :=
  isFinite_ofRatio Nat.one_pos (Nat.lt_of_lt_of_le h (by decide +kernel))

/-! ## Quotients by powers of ten -/

theorem significand_lt (x : Binary64) : x.significand < 2 * fractionCount := by
  have hfraction : x.fraction < fractionCount := Nat.mod_lt _ (by decide)
  unfold significand
  split <;> omega

theorem exponent_le {x : Binary64} (hx : x.isFinite = true) : x.exponent ≤ 971 := by
  have hbits : x.exponentBits < 2048 := Nat.mod_lt _ (by decide)
  have hne : x.exponentBits ≠ 2047 := by simpa [isFinite] using hx
  unfold exponent
  omega

/-- A finite number over one of at least `8`, which `1026` in the exponent bits says. -/
theorem isFinite_div {x y : Binary64} (hx : x.isFinite = true) (hy : 1026 ≤ y.exponentBits) :
    (x.div y).isFinite = true := by
  have hnormal : fractionCount ≤ y.significand := by
    rw [significand, if_neg (by omega)]
    exact Nat.le_add_right _ _
  have hshift : x.exponent - y.exponent ≤ 1020 := by
    have hle := exponent_le hx
    have hge : -49 ≤ y.exponent := by
      unfold exponent
      omega
    omega
  have hpos : 0 < y.significand := Nat.lt_of_lt_of_le (by decide) hnormal
  refine isFinite_ofRatio (scale_den_pos hpos _) ?_
  rw [Nat.mul_comm]
  refine (scale_lt_iff _ _ (2 ^ 1021) _).mpr ?_
  have hlt : (x.significand : ℚ) < (2 * fractionCount : Nat) := by exact_mod_cast significand_lt x
  have hle : ((fractionCount : Nat) : ℚ) ≤ y.significand := by exact_mod_cast hnormal
  have hdouble (e : Nat) :
      (2 * fractionCount : Nat) * (2 : ℚ) ^ e = 2 ^ (e + 1) * fractionCount := by
    push_cast
    ring
  calc (x.significand : ℚ) * 2 ^ (x.exponent - y.exponent)
      < (2 * fractionCount : Nat) * 2 ^ (x.exponent - y.exponent) := by gcongr
    _ ≤ (2 * fractionCount : Nat) * 2 ^ (1020 : ℤ) := by
        gcongr
        exact one_le_two
    _ = 2 ^ (1020 + 1) * fractionCount := by
        rw [← hdouble 1020, ← zpow_natCast]
        rfl
    _ ≤ ((2 ^ 1021 : Nat) : ℚ) * y.significand := by
        rw [Nat.cast_pow, Nat.cast_two]
        gcongr

theorem ofDecimal_one (k : Nat) (hk : k ≤ 308) :
    ofDecimal false 1 k = ofRatio false (powTen k) 1 := by
  have hlength : decimalLength 1 = 1 := by
    unfold decimalLength
    rw [dif_neg (by decide), decimalLength, dif_pos (by decide)]
  simp only [ofDecimal, hlength]
  rw [if_neg (by decide), if_neg (by omega), if_neg (by omega), if_pos (by omega), Nat.one_mul]
  rfl

/-- A natural number above zero is rounded in units of the 53rd bit from its highest one on. -/
theorem unitExponent_one {num : Nat} (hnum : num ≠ 0) :
    unitExponent num 1 = (num.log2 : Int) - 52 := by
  have hone : Nat.log2 1 = 0 := by decide
  obtain ⟨guess, hguess, hunit | ⟨-, hsmall⟩⟩ := unitExponent_cases num 1
  · omega
  · -- with a smaller unit the number would have more than 53 bits
    have hexponent : (num.log2 : ℤ) + -guess = (53 : ℕ) := by omega
    have hlarge : ((2 * fractionCount : Nat) : ℚ) * (1 : Nat) ≤ num * 2 ^ (-guess) := by
      calc ((2 * fractionCount : Nat) : ℚ) * (1 : Nat) = 2 ^ ((num.log2 : ℤ) + -guess) := by
            rw [hexponent, zpow_natCast]
            norm_num [fractionCount]
        _ ≤ num * 2 ^ (-guess) := zpow_log2_le hnum _
    exact absurd ((scale_lt_iff num 1 _ _).mp hsmall) (not_lt.mpr hlarge)

/-- Every natural number from `8` on is rounded to `8` or more. -/
theorem exponentBits_ofRatio_one {num : Nat} (h : 8 ≤ num) :
    1026 ≤ (ofRatio false num 1).exponentBits := by
  have hnum : num ≠ 0 := by omega
  have hlog : 3 ≤ num.log2 := (Nat.le_log2 hnum).mpr h
  have hunit := unitExponent_one hnum
  have hexponent : (num.log2 : ℤ) + -unitExponent num 1 = (52 : ℕ) := by omega
  have hlarge : (fractionCount : ℚ) * (1 : Nat) ≤ num * 2 ^ (-unitExponent num 1) := by
    calc (fractionCount : ℚ) * (1 : Nat) = 2 ^ ((num.log2 : ℤ) + -unitExponent num 1) := by
          rw [hexponent, zpow_natCast]
          norm_num [fractionCount]
      _ ≤ num * 2 ^ (-unitExponent num 1) := zpow_log2_le hnum _
  have hquotient := (Nat.le_div_iff_mul_le (scale_den_pos Nat.one_pos _)).mpr
    (Nat.le_of_not_lt (mt (scale_lt_iff num 1 fractionCount _).mp (not_lt.mpr hlarge)))
  have hround := le_divRound (scale num 1 (-unitExponent num 1)).1
    (scale num 1 (-unitExponent num 1)).2
  rw [ofRatio_of_ne_zero false 1 hnum,
    exponentBits_ofMagnitude (Nat.lt_of_le_of_lt (Nat.min_le_right _ _) (by decide)),
    Nat.le_div_iff_mul_le (by decide), Nat.le_min]
  refine ⟨?_, by decide⟩
  unfold fractionCount at *
  omega

/-- The powers of ten, the first apart, are such numbers. -/
theorem exponentBits_powTen {k : Nat} (hk : 1 ≤ k) :
    1026 ≤ (ofRatio false (powTen k) 1).exponentBits := by
  have hten : 10 ^ 1 ≤ powTen k := Nat.pow_le_pow_right (by decide) hk
  exact exponentBits_ofRatio_one (by omega)

end SchemaFilter.Binary64

namespace SchemaFilter.Json

open Binary64

/-! ## Numbers that are read -/

theorem isFinite_divPowTen {x : Binary64} (hx : x.isFinite = true) (places : Nat)
    (hplaces : 1 ≤ places) : (divPowTen x places).isFinite = true := by
  induction x, places using divPowTen.induct with
  | case1 x places hfew =>
    rw [divPowTen, if_pos hfew, ofDecimal_one places hfew]
    exact isFinite_div hx (exponentBits_powTen hplaces)
  | case2 x places hmany hzero => rwa [divPowTen, if_neg hmany, if_pos hzero]
  | case3 x places hmany hzero ih =>
    rw [divPowTen, if_neg hmany, if_neg hzero]
    refine ih ?_ (by omega)
    exact ofDecimal_one 308 (by decide) ▸ isFinite_div hx (exponentBits_powTen (by decide))

theorem isFinite_of_scalePowTen? {x y : Binary64} {exponent : Int} (hx : x.isFinite = true)
    (h : scalePowTen? x exponent = some y) : y.isFinite = true := by
  unfold scalePowTen? at h
  split at h
  · next hneg =>
    obtain rfl := Option.some.inj h
    exact isFinite_divPowTen hx _ (by omega)
  split at h
  · split at h
    · obtain rfl := Option.some.inj h
      exact hx
    · exact absurd h (by simp)
  · extract_lets product at h
    split at h
    · exact absurd h (by simp)
    · next hfinite =>
      obtain rfl := Option.some.inj h
      exact isFinite_mul (Bool.eq_false_iff.mpr hfinite)

/-- What is absorbed stays within 64 bits. -/
theorem absorb_le (n : Nat) (cs : List Char) (hn : n ≤ maxWord) : (absorb n cs).1 ≤ maxWord := by
  induction n, cs using absorb.induct with
  | case1 n => exact hn
  | case2 n c cs m hlarge => rwa [absorb, if_pos hlarge]
  | case3 n c cs m hsmall ih =>
    rw [absorb, if_neg hsmall]
    exact ih (Nat.le_of_not_lt hsmall)

/-- The double of the digits of a number is finite. -/
theorem NumberText.isFinite_of_magnitude? {n : NumberText} {x : Binary64}
    (h : n.magnitude? = some x) : x.isFinite = true := by
  unfold NumberText.magnitude? at h
  rcases hwhole : absorb 0 n.whole with ⟨whole, left⟩
  rcases hdigits : absorb whole n.fraction with ⟨digits, rest⟩
  have hword : whole ≤ maxWord := by simpa [hwhole] using absorb_le 0 n.whole (by decide)
  have hdigits' : digits ≤ maxWord := by simpa [hdigits] using absorb_le whole n.fraction hword
  have hfinite : (ofNat digits).isFinite = true :=
    isFinite_ofNat (Nat.lt_of_le_of_lt hdigits' (by decide))
  simp only [hwhole, hdigits] at h
  split at h
  · exact isFinite_of_scalePowTen? hfinite h
  split at h
  · exact isFinite_of_scalePowTen? hfinite h
  split at h
  · obtain rfl := Option.some.inj h
    exact isFinite_zero false
  · exact absurd h (by simp)

end SchemaFilter.Json
