import SchemaFilter.Number.Binary64
import SchemaFilter.Number.Word
import SchemaFilter.Text.Hex

/-!
# Scalars of TOML

Which words stand for a truth value, a number, a date or a time. Integers have to fit 64 bits,
finite floats must not be too large, and dates have to be in the calendar.
-/

namespace SchemaFilter.Toml

/-! ## Numbers -/

/-- Digits of the given kind with single underscores between them; the digits alone. -/
def groupedDigits? (isDigit : Char → Bool) : List Char → Option (List Char)
  | [] => none
  | [c] => if isDigit c then some [c] else none
  | c :: '_' :: cs => if isDigit c then (groupedDigits? isDigit cs).map (c :: ·) else none
  | c :: cs => if isDigit c then (groupedDigits? isDigit cs).map (c :: ·) else none

/-- The number that digits write. -/
def digitsNumber (base : Nat) (digits : List Char) : Nat :=
  digits.foldl (fun n c => n * base + (hexValue? c).getD 0) 0

/-- A sign and what follows it. -/
def signed : List Char → Bool × List Char
  | '-' :: cs => (true, cs)
  | '+' :: cs => (false, cs)
  | cs => (false, cs)

/-- Decimal digits of a whole number: a zero stands alone. -/
def decimalDigits? (cs : List Char) : Option (List Char) :=
  match groupedDigits? Char.isDigit cs with
  | some ('0' :: _ :: _) => none
  | found => found

/-- Whether a word is an integer. -/
def isInteger (cs : List Char) : Bool :=
  let based (base : Nat) (isDigit : Char → Bool) (digits : List Char) : Bool :=
    match groupedDigits? isDigit digits with
    | some digits => (int64OfInt? (digitsNumber base digits)).isSome
    | none => false
  match cs with
  | '0' :: 'x' :: digits => based 16 (fun c => (hexValue? c).isSome) digits
  | '0' :: 'o' :: digits => based 8 (fun c => '0' ≤ c && c ≤ '7') digits
  | '0' :: 'b' :: digits => based 2 (fun c => c == '0' || c == '1') digits
  | cs =>
    let (negative, digits) := signed cs
    match decimalDigits? digits with
    | some digits =>
      let n : Int := digitsNumber 10 digits
      (int64OfInt? (if negative then -n else n)).isSome
    | none => false

/-- The exponent that is written after `e`, if one is. -/
def floatExponent? : List Char → Option Int
  | [] => some 0
  | _ :: cs =>
    let (negative, digits) := signed cs
    (groupedDigits? Char.isDigit digits).map fun digits =>
      let n := digitsNumber 10 digits
      if negative then -(n : Int) else n

/-- Whether a word is a float: a whole number with a fraction, an exponent or both, or one of the
    words for infinity and for no number. -/
def isFloat (cs : List Char) : Bool :=
  let (negative, cs) := signed cs
  if cs = "inf".toList ∨ cs = "nan".toList then true
  else
    let isExponentMark (c : Char) : Bool := c == 'e' || c == 'E'
    let (mantissa, rest) := cs.span (!isExponentMark ·)
    let (whole, point) := mantissa.span (· ≠ '.')
    if point.isEmpty && rest.isEmpty then false
    else
      let places := if point.isEmpty then some [] else groupedDigits? Char.isDigit point.tail
      match decimalDigits? whole, places, floatExponent? rest with
      | some whole, some places, some exponent =>
        let digits := digitsNumber 10 (whole ++ places)
        negative || !(Binary64.ofDecimal false digits (exponent - places.length)).isInfinite
      | _, _, _ => false

/-! ## Dates and times -/

/-- The number that exactly `count` digits at the start of a text write, and what follows them. -/
def fixedNumber? (count : Nat) (cs : List Char) : Option (Nat × List Char) :=
  let digits := cs.take count
  if digits.length = count ∧ digits.all Char.isDigit then
    some (digitsNumber 10 digits, cs.drop count)
  else none

/-- The rest of a text after the given character. -/
def after? (c : Char) : List Char → Option (List Char)
  | d :: cs => if c = d then some cs else none
  | [] => none

/-- How many days a month has. -/
def daysInMonth (year month : Nat) : Nat :=
  if month = 2 then if year % 4 = 0 ∧ (year % 100 ≠ 0 ∨ year % 400 = 0) then 29 else 28
  else if month = 4 ∨ month = 6 ∨ month = 9 ∨ month = 11 then 30
  else 31

/-- What follows a date at the start of a text. -/
def afterDate? (cs : List Char) : Option (List Char) := do
  let (year, cs) ← fixedNumber? 4 cs
  let (month, cs) ← fixedNumber? 2 (← after? '-' cs)
  let (day, cs) ← fixedNumber? 2 (← after? '-' cs)
  if 1 ≤ month ∧ month ≤ 12 ∧ 1 ≤ day ∧ day ≤ daysInMonth year month then some cs else none

/-- What follows an hour and a minute at the start of a text. -/
def afterMinute? (cs : List Char) : Option (List Char) := do
  let (hour, cs) ← fixedNumber? 2 cs
  let (minute, cs) ← fixedNumber? 2 (← after? ':' cs)
  if hour ≤ 23 ∧ minute ≤ 59 then some cs else none

/-- What follows a time of day at the start of a text. -/
def afterTime? (cs : List Char) : Option (List Char) := do
  let (second, cs) ← fixedNumber? 2 (← after? ':' (← afterMinute? cs))
  if 60 < second then none
  else
    match cs with
    | '.' :: cs =>
      if (cs.takeWhile Char.isDigit).isEmpty then none else some (cs.dropWhile Char.isDigit)
    | cs => some cs

/-- Whether a text is an offset from UTC, or empty. -/
def isOffset : List Char → Bool
  | [] | ['Z'] | ['z'] => true
  | '+' :: cs | '-' :: cs => afterMinute? cs == some []
  | _ => false

/-- Whether a word is a date, a time, or both with an offset or without. -/
def isDateOrTime (cs : List Char) : Bool :=
  match afterDate? cs with
  | some [] => true
  | some (c :: cs) =>
    (c == 'T' || c == 't' || c == ' ') &&
      match afterTime? cs with
      | some rest => isOffset rest
      | none => false
  | none => afterTime? cs == some []

/-- Whether a word is a scalar that is no string. -/
def isScalar (cs : List Char) : Bool :=
  cs = "true".toList || cs = "false".toList || isInteger cs || isFloat cs || isDateOrTime cs

end SchemaFilter.Toml
