/-!
# Double-precision numbers

A number of the 64-bit binary interchange format, held as its bits and computed with exactly: a
finite number is `± m · 2 ^ q`, and every operation forms the exact quotient of natural numbers
and rounds once, to nearest, a half going to the even neighbour.

Main definitions:

* `Binary64.significand`, `Binary64.exponent`: the `m` and `q` of a finite number;
* `Binary64.ofRatio`: the double nearest to a quotient, on which all others rest;
* `Binary64.ofDecimal`: the double nearest to `digits · 10 ^ exponent`;
* `Binary64.mul`, `Binary64.div`: rounded product and quotient.
-/

namespace SchemaFilter

/-- A double-precision number, given by its 64 bits. -/
structure Binary64 where
  bits : UInt64
  deriving DecidableEq, Inhabited

/-- The power of ten with the given exponent. -/
def powTen (exponent : Nat) : Nat := Nat.pow 10 exponent

namespace Binary64

/-! ## Reading the bits -/

/-- The weight of the sign bit, the highest one. -/
def signBit : Nat := 0x8000000000000000

/-- The weight of the lowest exponent bit: so many fractions there are. -/
def fractionCount : Nat := 0x10000000000000

/-- The sign bit. It is set for `-0` too. -/
def isNegative (x : Binary64) : Bool := signBit ≤ x.bits.toNat

/-- The eleven exponent bits. -/
def exponentBits (x : Binary64) : Nat := x.bits.toNat / fractionCount % 2048

/-- The 52 fraction bits. -/
def fraction (x : Binary64) : Nat := x.bits.toNat % fractionCount

/-- Whether the bits stand for no number. -/
def isNaN (x : Binary64) : Bool := x.exponentBits == 2047 && x.fraction != 0

/-- Whether the bits stand for one of the two infinities. -/
def isInfinite (x : Binary64) : Bool := x.exponentBits == 2047 && x.fraction == 0

/-- Whether the bits stand for a real number. -/
def isFinite (x : Binary64) : Bool := x.exponentBits != 2047

/-- The `m` in `± m · 2 ^ q`: the fraction, with the implicit leading bit unless the number is
    subnormal. -/
def significand (x : Binary64) : Nat :=
  if x.exponentBits = 0 then x.fraction else fractionCount + x.fraction

/-- The `q` in `± m · 2 ^ q`. Subnormal numbers share the exponent of the smallest normal ones. -/
def exponent (x : Binary64) : Int := (max x.exponentBits 1 : Nat) - 1075

/-- Whether the number is `0` or `-0`. -/
def isZero (x : Binary64) : Bool := x.exponentBits == 0 && x.fraction == 0

/-! ## Rounding -/

/-- The number with the given sign whose other 63 bits are `magnitude`. -/
def ofMagnitude (negative : Bool) (magnitude : Nat) : Binary64 :=
  ⟨UInt64.ofNat ((if negative then signBit else 0) + magnitude)⟩

/-- The bits of infinity without the sign. -/
def infiniteMagnitude : Nat := 2047 * fractionCount

/-- Infinity of the given sign. -/
def infinity (negative : Bool) : Binary64 := ofMagnitude negative infiniteMagnitude

/-- Zero of the given sign. -/
def zero (negative : Bool) : Binary64 := ofMagnitude negative 0

/-- The bits that stand for no number. -/
def nan : Binary64 := ofMagnitude false (infiniteMagnitude + fractionCount / 2)

/-- The integer nearest to `num / den`, a half going to the even neighbour. -/
def divRound (num den : Nat) : Nat :=
  let floor := num / den
  let rest := num % den
  if den < 2 * rest ∨ (2 * rest = den ∧ floor % 2 = 1) then floor + 1 else floor

/-- The pair `(num, den)` multiplied by `2 ^ shift`. -/
def scale (num den : Nat) (shift : Int) : Nat × Nat :=
  if 0 ≤ shift then (num <<< shift.toNat, den) else (num, den <<< (-shift).toNat)

/-- The exponent of the last bit kept when `num / den` is rounded: 53 bits are kept, fewer below
    the smallest normal number. -/
def unitExponent (num den : Nat) : Int :=
  let guess : Int := max ((num.log2 : Int) - den.log2 - 53) (-1074)
  let (n, d) := scale num den (-guess)
  if 2 * fractionCount * d ≤ n then guess + 1 else guess

/-- The double nearest to `± num / den`, infinite from half a unit above the largest finite
    one. A carry out of the significand is a carry into the exponent bits, so that adding the
    two gives the right bits in every case. -/
def ofRatio (negative : Bool) (num den : Nat) : Binary64 :=
  if num = 0 then zero negative
  else
    let unit := unitExponent num den
    let (n, d) := scale num den (-unit)
    let magnitude := (unit + 1074).toNat * fractionCount + divRound n d
    ofMagnitude negative (min magnitude infiniteMagnitude)

/-- The double nearest to `± num / den · 2 ^ shift`. -/
def ofScaledRatio (negative : Bool) (num den : Nat) (shift : Int) : Binary64 :=
  let (n, d) := scale num den shift
  ofRatio negative n d

/-- The double nearest to a natural number. -/
def ofNat (n : Nat) : Binary64 := ofRatio false n 1

/-- The double nearest to an integer. -/
def ofInt (i : Int) : Binary64 := ofRatio (i < 0) i.natAbs 1

/-! ## Decimal numbers -/

/-- How many decimal digits a natural number has; zero has none. -/
def decimalLength (n : Nat) : Nat :=
  if h : n = 0 then 0 else decimalLength (n / 10) + 1
termination_by n
decreasing_by omega

/-- The double nearest to `± digits · 10 ^ exponent`. From `10 ^ 309` on it is infinite and up to
    `10 ^ -324` it is zero, so that the powers of ten formed here stay small. -/
def ofDecimal (negative : Bool) (digits : Nat) (exponent : Int) : Binary64 :=
  if digits = 0 then zero negative
  else
    let position := decimalLength digits + exponent
    if 310 ≤ position then infinity negative
    else if position ≤ -324 then zero negative
    else if 0 ≤ exponent then ofRatio negative (digits * powTen exponent.toNat) 1
    else ofRatio negative digits (powTen (-exponent).toNat)

/-! ## Arithmetic on finite numbers -/

/-- The number with its sign changed. -/
def neg (x : Binary64) : Binary64 := ⟨x.bits ^^^ 0x8000000000000000⟩

/-- The rounded product of two finite numbers. -/
def mul (x y : Binary64) : Binary64 :=
  ofScaledRatio (x.isNegative != y.isNegative) (x.significand * y.significand) 1
    (x.exponent + y.exponent)

/-- The rounded quotient of two finite numbers, the second of them not zero. -/
def div (x y : Binary64) : Binary64 :=
  ofScaledRatio (x.isNegative != y.isNegative) x.significand y.significand
    (x.exponent - y.exponent)

/-- Equality as numbers: `0` equals `-0`, and what is no number equals nothing. -/
def numericallyEqual (x y : Binary64) : Bool :=
  !x.isNaN && !y.isNaN && (x == y || (x.isZero && y.isZero))

end Binary64

end SchemaFilter
