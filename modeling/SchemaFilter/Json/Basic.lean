import SchemaFilter.Number.Shortest
import SchemaFilter.Text.Hex

/-!
# JSON values

JSON values and their compact text. Integers that fit 64 bits, with or without sign, stay
integers; every other number is a double. The members of an object are kept in the order in which
they are written; `Json.object` values that were read have them sorted by key, each key once.

The text of a double has the shortest digits: plain notation with at least one decimal place from
`10 ^ -5` up to `10 ^ 16`, scientific notation outside.
-/

namespace SchemaFilter

/-- A JSON value. -/
inductive Json where
  | null
  | bool (value : Bool)
  | integer (value : Int)
  | number (value : Binary64)
  | string (value : String)
  | array (elements : List Json)
  | object (members : List (String × Json))
  deriving Inhabited

namespace Json

/-! ## Text -/

/-- A character inside a string: quotes, backslashes and control characters are escaped. -/
def escapedChar (c : Char) : List Char :=
  match c with
  | '"' => ['\\', '"']
  | '\\' => ['\\', '\\']
  | '\n' => ['\\', 'n']
  | '\r' => ['\\', 'r']
  | '\t' => ['\\', 't']
  | '\x08' => ['\\', 'b']
  | '\x0c' => ['\\', 'f']
  | c => if c.toNat < 0x20 then '\\' :: 'u' :: hexDigits 4 c.toNat else [c]

/-- A string in quotes. -/
def quoted (s : String) : List Char := '"' :: (s.toList.flatMap escapedChar ++ ['"'])

/-- A whole number, with a minus sign if it is negative. -/
def integerChars (i : Int) : List Char :=
  if i < 0 then '-' :: Nat.toDigits 10 i.natAbs else Nat.toDigits 10 i.natAbs

/-- The text of a positive double. -/
def positiveChars (d : DecimalNumber) : List Char :=
  if -5 ≤ d.leadingExponent ∧ d.leadingExponent < 16 then
    if 0 ≤ d.exponent then d.positional ++ ['.', '0'] else d.positional
  else d.scientific

/-- The text of a finite double; there is none for the others, and `null` takes its place. -/
def numberChars (x : Binary64) : List Char :=
  if !x.isFinite then "null".toList
  else
    (if x.isNegative then ['-'] else []) ++
      (if x.isZero then ['0', '.', '0'] else positiveChars (x.shortest .even))

mutual

/-- The compact text of a value. -/
def chars : Json → List Char
  | null => "null".toList
  | bool b => (if b then "true" else "false").toList
  | integer i => integerChars i
  | number x => numberChars x
  | string s => quoted s
  | array [] => ['[', ']']
  | array (e :: es) => '[' :: (e.chars ++ elementChars es)
  | object [] => ['{', '}']
  | object (m :: ms) => '{' :: (memberChars m ++ membersChars ms)

/-- Further elements, each after a comma, and the closing bracket. -/
def elementChars : List Json → List Char
  | [] => [']']
  | e :: es => ',' :: (e.chars ++ elementChars es)

/-- One member: key, colon and value. -/
def memberChars : String × Json → List Char
  | (key, value) => quoted key ++ ':' :: value.chars

/-- Further members, each after a comma, and the closing brace. -/
def membersChars : List (String × Json) → List Char
  | [] => ['}']
  | m :: ms => ',' :: (memberChars m ++ membersChars ms)

end

def text (j : Json) : String := String.ofList j.chars

/-! ## Objects sorted by key -/

/-- Puts a member at its place in a list sorted by key; a member of the same key is replaced. -/
def putMember (key : String) (value : Json) : List (String × Json) → List (String × Json)
  | [] => [(key, value)]
  | (k, v) :: ms =>
    if key = k then (key, value) :: ms
    else if key < k then (key, value) :: (k, v) :: ms
    else (k, v) :: putMember key value ms

/-- The object with the given members in sorted order; of members with one key the last counts. -/
def ofMembers (members : List (String × Json)) : Json :=
  object (members.foldl (fun sorted (key, value) => putMember key value sorted) [])

end Json

end SchemaFilter
