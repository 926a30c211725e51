import SchemaFilter.Text.Hex

/-!
# Universally unique identifiers

Identifiers of 128 bits, read from 32 hexadecimal digits with or without the four hyphens and
written in lowercase with them.
-/

namespace SchemaFilter

/-- An identifier of 128 bits. -/
structure Uuid where
  bits : BitVec 128
  deriving DecidableEq, Repr, Inhabited

namespace Uuid

/-- How many digits stand in each of the hyphenated groups. -/
def groupSizes : List Nat := [8, 4, 4, 4, 12]

/-- Cuts a list into groups of the given sizes. -/
def cut : List Nat → List Char → List (List Char)
  | [], _ => []
  | n :: sizes, cs => cs.take n :: cut sizes (cs.drop n)

/-- The lowercase hyphenated text. -/
def text (u : Uuid) : String :=
  String.ofList (List.intercalate ['-'] (cut groupSizes (hexDigits 32 u.bits.toNat)))

/-- Reads 32 digits, either plain or with hyphens at their places. -/
def ofText? (s : String) : Option Uuid :=
  let digits := s.toList.filter (· ≠ '-')
  let hyphenated := List.intercalate ['-'] (cut groupSizes digits)
  if digits.length = 32 ∧ (s.toList = digits ∨ s.toList = hyphenated) then
    (hexNumber? digits).map fun n => ⟨BitVec.ofNat 128 n⟩
  else none

end Uuid

end SchemaFilter
