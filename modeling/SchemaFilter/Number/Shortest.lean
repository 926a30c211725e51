import SchemaFilter.Number.Binary64

/-!
# Shortest decimal text of a double

A finite double has many decimal numbers that read back as it. The shortest is the one with the
fewest digits, and among those the nearest. `Binary64.shortest` finds it on the grids of 1, 2, …
17 digits: if a grid holds any number that reads back, one of the two neighbours of the double on
that grid does.

The text is written from the digits in one of two notations: `positional` spells every digit out,
`scientific` puts the point after the first digit and adds an exponent.
-/

namespace SchemaFilter

/-- A positive decimal number `digits · 10 ^ exponent`. -/
structure DecimalNumber where
  digits : Nat
  exponent : Int
  deriving DecidableEq, Repr

/-- Which of two equally near numbers of a grid is taken. -/
inductive TieRule where
  /-- The one whose last digit is even. -/
  | even
  /-- The greater one. -/
  | up
  deriving DecidableEq, Repr

/-- The same number without trailing zeros among its digits. -/
def DecimalNumber.withoutTrailingZeros (d : DecimalNumber) : DecimalNumber :=
  if _h : d.digits ≠ 0 ∧ d.digits % 10 = 0 then
    withoutTrailingZeros ⟨d.digits / 10, d.exponent + 1⟩
  else d
termination_by d.digits
decreasing_by omega

namespace Binary64

/-- The exact value of a finite number without its sign, as a quotient. -/
def magnitudeRatio (x : Binary64) : Nat × Nat := scale x.significand 1 x.exponent

/-- The number `p` with `10 ^ (p - 1) ≤ num / den < 10 ^ p`. -/
def decimalPosition (num den : Nat) : Int :=
  if den ≤ num then decimalLength (num / den) else 1 - (decimalLength ((den - 1) / num) : Int)

/-- Whether a decimal number reads back as the number without its sign. -/
def readsBack (x : Binary64) (d : DecimalNumber) : Bool :=
  (ofDecimal false d.digits d.exponent).bits.toNat == x.bits.toNat % signBit

/-- The decimal number of the given unit that is nearest among the two neighbours of `x` and reads
    back as `x`, if one does. -/
def nearestOnGrid? (tie : TieRule) (x : Binary64) (unit : Int) : Option DecimalNumber :=
  let (num, den) := x.magnitudeRatio
  let n := if unit < 0 then num * powTen (-unit).toNat else num
  let d := if unit < 0 then den else den * powTen unit.toNat
  let below : DecimalNumber := ⟨n / d, unit⟩
  let above : DecimalNumber := ⟨n / d + 1, unit⟩
  let rest := n % d
  match x.readsBack below, x.readsBack above with
  | true, false => some below
  | false, true => some above
  | false, false => none
  | true, true =>
    if 2 * rest < d then some below
    else if d < 2 * rest then some above
    else match tie with
      | .up => some above
      | .even => some (if (n / d) % 2 = 0 then below else above)

/-- The first hit on the grids of `count`, `count + 1`, … digits, at most `room` of them. -/
def searchGrids (tie : TieRule) (x : Binary64) (position : Int) :
    (room count : Nat) → Option DecimalNumber
  | 0, _ => none
  | room + 1, count =>
    match nearestOnGrid? tie x (position - count) with
    | some d => some d
    | none => searchGrids tie x position room (count + 1)

/-- The shortest decimal number that reads back as a finite nonzero number without its sign.
    Seventeen digits always suffice; the exact value stands in as the last resort. The upper
    neighbour can be a power of ten, which has a zero to drop. -/
def shortest (tie : TieRule) (x : Binary64) : DecimalNumber :=
  let (num, den) := x.magnitudeRatio
  let found :=
    (searchGrids tie x (decimalPosition num den) 17 1).getD ⟨num * powTen 1074 / den, -1074⟩
  found.withoutTrailingZeros

end Binary64

namespace DecimalNumber

/-- The digits as text. -/
def digitText (d : DecimalNumber) : List Char := Nat.toDigits 10 d.digits

/-- The number with all its digits written out and no exponent; a whole number has no point. -/
def positional (d : DecimalNumber) : List Char :=
  let text := d.digitText
  if 0 ≤ d.exponent then text ++ List.replicate d.exponent.toNat '0'
  else
    let places := (-d.exponent).toNat
    if places < text.length then
      text.take (text.length - places) ++ '.' :: text.drop (text.length - places)
    else '0' :: '.' :: (List.replicate (places - text.length) '0' ++ text)

/-- The exponent of the first digit. -/
def leadingExponent (d : DecimalNumber) : Int := d.digitText.length - 1 + d.exponent

/-- The number with one digit before the point and a signed exponent. -/
def scientific (d : DecimalNumber) : List Char :=
  let mantissa := match d.digitText with
    | [] => []
    | [c] => [c]
    | c :: more => c :: '.' :: more
  let e := d.leadingExponent
  mantissa ++ 'e' :: (if e < 0 then '-' else '+') :: Nat.toDigits 10 e.natAbs

end DecimalNumber

end SchemaFilter
