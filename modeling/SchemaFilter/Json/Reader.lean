import SchemaFilter.Json.Basic
import SchemaFilter.Json.Source
import SchemaFilter.Number.Word

/-!
# Reading JSON values

The value of a JSON text. Strings need their surrogates in pairs, numbers need to be in range, and
arrays and objects may be nested 127 deep.

Numbers are read in the common fast way: up to 64 bits of the digits are taken as an integer, which
is then multiplied or divided by a power of ten, each step rounded. So the result can differ from
the nearest double in its last place where more than 53 bits of digits are written or the exponent
is large.
-/

namespace SchemaFilter.Json

/-! ## Strings -/

/-- The text of a string: code units from `\ud800` on stand for characters in pairs. -/
def decodeUnits? : List StringUnit → Option (List Char)
  | [] => some []
  | .char c :: us => (decodeUnits? us).map (c :: ·)
  | .unit high :: .unit low :: us =>
    if 0xD800 ≤ high ∧ high ≤ 0xDBFF then
      if 0xDC00 ≤ low ∧ low ≤ 0xDFFF then
        (decodeUnits? us).map
          (Char.ofNat (0x10000 + (high - 0xD800) * 0x400 + (low - 0xDC00)) :: ·)
      else none
    else if 0xDC00 ≤ high ∧ high ≤ 0xDFFF then none
    else (decodeUnits? (.unit low :: us)).map (Char.ofNat high :: ·)
  | .unit n :: us =>
    if 0xD800 ≤ n ∧ n ≤ 0xDFFF then none else (decodeUnits? us).map (Char.ofNat n :: ·)

def decodeString? (units : List StringUnit) : Option String :=
  (decodeUnits? units).map String.ofList

/-! ## Numbers -/

/-- The largest 64-bit integer without sign. -/
def maxWord : Nat := UInt64.size - 1

/-- Appends digits to a number as long as it stays within 64 bits; the digits that are left. -/
def absorb (n : Nat) : List Char → Nat × List Char
  | [] => (n, [])
  | c :: cs =>
    let m := n * 10 + (c.toNat - '0'.toNat)
    if maxWord < m then (n, c :: cs) else absorb m cs

/-- The double `x / 10 ^ places`, in steps of at most 308 places. -/
def divPowTen (x : Binary64) (places : Nat) : Binary64 :=
  if places ≤ 308 then x.div (.ofDecimal false 1 places)
  else if x.isZero then x
  else divPowTen (x.div (.ofDecimal false 1 308)) (places - 308)
termination_by places
decreasing_by omega

/-- The double `x · 10 ^ exponent`, absent if it is too large. -/
def scalePowTen? (x : Binary64) (exponent : Int) : Option Binary64 :=
  if exponent < 0 then some (divPowTen x exponent.natAbs)
  else if 308 < exponent then if x.isZero then some x else none
  else
    let y := x.mul (.ofDecimal false 1 exponent)
    if y.isInfinite then none else some y

/-- The exponent that is written, absent if it is beyond 32 bits. -/
def exponentValue? (digits : List Char) : Option Nat :=
  let n := digits.foldl (fun acc c => acc * 10 + (c.toNat - '0'.toNat)) 0
  if (n : Int) ≤ Int32.maxValue.toInt then some n else none

/-- An exponent held within 32 bits. -/
def clampExponent (e : Int) : Int := max Int32.minValue.toInt (min e Int32.maxValue.toInt)

namespace NumberText

/-- Whether the number is written without a fraction and without an exponent. -/
def isWhole (n : NumberText) : Bool := n.fraction.isEmpty && n.exponent.isNone

/-- The double of the digits, without the sign: those that 64 bits can hold, and the power of ten
    that the point and the digits left over amount to. -/
def magnitude? (n : NumberText) : Option Binary64 :=
  let (whole, left) := absorb 0 n.whole
  let (digits, rest) := absorb whole n.fraction
  let shift : Int := left.length - ((n.fraction.length - rest.length : Nat) : Int)
  let x := Binary64.ofNat digits
  match n.exponent with
  | none => scalePowTen? x shift
  | some (negative, written) =>
    match exponentValue? written with
    | some e => scalePowTen? x (clampExponent (if negative then shift - e else shift + e))
    | none => if negative || x.isZero then some (.zero false) else none

/-- The value of a number: an integer if it is written as one and fits 64 bits, with the sign taken
    into account; `-0` and all others are doubles. -/
def value? (n : NumberText) : Option Json :=
  match absorb 0 n.whole with
  | (m, []) =>
    if n.isWhole && !n.negative then some (.integer m)
    else if n.isWhole && (0 < m && (int64OfInt? (-m)).isSome) then some (.integer (-m))
    else (n.magnitude?).map fun x => .number (if n.negative then x.neg else x)
  | _ => (n.magnitude?).map fun x => .number (if n.negative then x.neg else x)

end NumberText

/-! ## Values -/

mutual

/-- The value of a source, whose arrays and objects may be nested `room` deep. -/
def Source.toJson? : (room : Nat) → Source → Option Json
  | _, .null => some .null
  | _, .bool b => some (.bool b)
  | _, .number n => n.value?
  | _, .string units => (decodeString? units).map .string
  | 0, .array _ | 0, .object _ => none
  | room + 1, .array es => (elementsToJson? room es).map .array
  | room + 1, .object ms => (membersToJson? room ms).map ofMembers

def elementsToJson? : (room : Nat) → List Source → Option (List Json)
  | _, [] => some []
  | room, e :: es => do return (← e.toJson? room) :: (← elementsToJson? room es)

def membersToJson? : (room : Nat) → List (List StringUnit × Source) → Option (List (String × Json))
  | _, [] => some []
  | room, (key, v) :: ms => do
    return (← decodeString? key, ← v.toJson? room) :: (← membersToJson? room ms)

end

/-- How deep arrays and objects may be nested. -/
def maxDepth : Nat := 127

/-- The value of a JSON text. -/
def parse? (text : String) : Option Json := do (← Source.parse? text.toList).toJson? maxDepth

end SchemaFilter.Json
