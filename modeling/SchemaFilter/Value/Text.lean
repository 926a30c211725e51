import SchemaFilter.Value.Basic

/-!
# Display of values

Values as they are shown to people. Texts are put in single quotes as they are, without escapes.
Floats are written out in full with the fewest digits that read back, of two equally near ones the
greater, and without a point where they are whole.
-/

namespace SchemaFilter.Value

/-- A float with all its digits and no exponent. -/
def floatText (x : Binary64) : String :=
  if x.isNaN then "NaN"
  else
    let sign := if x.isNegative then "-" else ""
    if x.isInfinite then sign ++ "inf"
    else if x.isZero then sign ++ "0"
    else sign ++ String.ofList (x.shortest .up).positional

def inQuotes (s : String) : String := "'" ++ s ++ "'"

/-- Bytes as hexadecimal digits. -/
def bytesText (bytes : List UInt8) : String :=
  String.ofList ('\\' :: 'x' :: bytes.flatMap (hexDigits 2 ·.toNat))

def boolText (b : Bool) : String := if b then "true" else "false"

mutual

/-- The value as it is shown. -/
def text : Value → String
  | null => "NULL"
  | bool b => boolText b
  | int i => toString i.toInt
  | float x => floatText x
  | string s => inQuotes s
  | uuid u => inQuotes u.text
  | decimal d => d.text
  | dateTime m => inQuotes m.text
  | date d => inQuotes d.text
  | time t => inQuotes t.text
  | json j => inQuotes j.text
  | bytes bs => inQuotes (bytesText bs)
  | list vs => "[" ++ ", ".intercalate (texts vs) ++ "]"

def texts : List Value → List String
  | [] => []
  | v :: vs => v.text :: texts vs

end

end SchemaFilter.Value
