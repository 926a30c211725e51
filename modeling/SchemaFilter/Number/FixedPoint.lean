/-!
# Fixed-point numbers

An exact decimal number as an integer mantissa and a count of decimal places. The text has exactly
that many places, so that `19.00` keeps its zeros.
-/

namespace SchemaFilter

/-- The number `mantissa / 10 ^ scale`. -/
structure FixedPoint where
  mantissa : Int
  scale : Nat
  deriving DecidableEq, Repr, Inhabited

/-- The number with `scale` digits after the point, and no point when there are none. -/
def FixedPoint.text (x : FixedPoint) : String :=
  let digits := Nat.toDigits 10 x.mantissa.natAbs
  let padded := List.replicate (x.scale + 1 - digits.length) '0' ++ digits
  let whole := padded.take (padded.length - x.scale)
  let places := padded.drop (padded.length - x.scale)
  let sign := if x.mantissa < 0 then ['-'] else []
  String.ofList (sign ++ whole ++ (if places.isEmpty then [] else '.' :: places))

end SchemaFilter
