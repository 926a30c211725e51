/-!
# Dates and times

Calendar dates, times of day and moments in UTC, with the texts in which they are displayed: years
have at least four digits and a sign outside of 0 to 9999, and the fraction of a second has the
fewest of 0, 3, 6 or 9 digits that are exact.
-/

namespace SchemaFilter

/-- A day of the proleptic Gregorian calendar. -/
structure Date where
  year : Int
  month : Nat
  day : Nat
  deriving DecidableEq, Repr, Inhabited

/-- A time of day. A count of nanoseconds from `10 ^ 9` on lies in a leap second that follows
    the given second. -/
structure TimeOfDay where
  hour : Nat
  minute : Nat
  second : Nat
  nanosecond : Nat
  deriving DecidableEq, Repr, Inhabited

/-- A moment in UTC. -/
structure Moment where
  date : Date
  time : TimeOfDay
  deriving DecidableEq, Repr, Inhabited

/-- The decimal digits of `n`, filled up with zeros on the left to at least `width`. -/
def paddedDigits (width n : Nat) : String :=
  let digits := Nat.toDigits 10 n
  String.ofList (List.replicate (width - digits.length) '0' ++ digits)

/-- A year: four digits or more, with a sign where four digits do not reach. -/
def Date.yearText (year : Int) : String :=
  let digits := paddedDigits 4 year.natAbs
  if year < 0 then "-" ++ digits else if 9999 < year then "+" ++ digits else digits

/-- Year, month and day, separated by hyphens. -/
def Date.text (d : Date) : String :=
  Date.yearText d.year ++ "-" ++ paddedDigits 2 d.month ++ "-" ++ paddedDigits 2 d.day

/-- The fraction of a second after the point, empty when it is zero. -/
def TimeOfDay.fractionText (nanosecond : Nat) : String :=
  if nanosecond = 0 then ""
  else if nanosecond % 1000000 = 0 then "." ++ paddedDigits 3 (nanosecond / 1000000)
  else if nanosecond % 1000 = 0 then "." ++ paddedDigits 6 (nanosecond / 1000)
  else "." ++ paddedDigits 9 nanosecond

/-- Hour, minute and second, separated by colons, and the fraction. A leap second is written as
    one second more. -/
def TimeOfDay.text (t : TimeOfDay) : String :=
  paddedDigits 2 t.hour ++ ":" ++ paddedDigits 2 t.minute ++ ":" ++
    paddedDigits 2 (t.second + t.nanosecond / 1000000000) ++
    TimeOfDay.fractionText (t.nanosecond % 1000000000)

/-- Date and time with a `T` between them, without an offset. -/
def Moment.localText (m : Moment) : String := m.date.text ++ "T" ++ m.time.text

/-- The display form, with UTC written as a numeric offset. -/
def Moment.text (m : Moment) : String := m.localText ++ "+00:00"

/-- The stored form, with UTC written as `Z`. -/
def Moment.storedText (m : Moment) : String := m.localText ++ "Z"

end SchemaFilter
