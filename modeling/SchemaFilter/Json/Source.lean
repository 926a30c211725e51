import SchemaFilter.Text.Hex

/-!
# JSON texts

What a JSON text says before numbers and strings are given their values: `Source.parse?` accepts
exactly the texts of the JSON grammar. A text can be grammatical and yet have no value, such as
a number that is too large or half of a surrogate pair; what is skipped over in a text is only held
to the grammar.
-/

namespace SchemaFilter.Json

/-- A number as it is written. The fraction is empty where no point is written. -/
structure NumberText where
  negative : Bool
  whole : List Char
  fraction : List Char
  /-- Whether the exponent is negative, and its digits. -/
  exponent : Option (Bool × List Char)
  deriving DecidableEq, Repr

/-- What stands for one part of a string: a character, or an escaped UTF-16 code unit. -/
inductive StringUnit where
  | char (c : Char)
  | unit (n : Nat)
  deriving DecidableEq, Repr

/-- A JSON text as it is written, without the blanks. -/
inductive Source where
  | null
  | bool (value : Bool)
  | number (n : NumberText)
  | string (units : List StringUnit)
  | array (elements : List Source)
  | object (members : List (List StringUnit × Source))
  deriving Inhabited

/-! ## Characters -/

def isBlankChar (c : Char) : Bool := c == ' ' || c == '\n' || c == '\t' || c == '\r'

def dropBlank (cs : List Char) : List Char := cs.dropWhile isBlankChar

/-- The rest of a text after the given word. -/
def dropWord? : (word : List Char) → List Char → Option (List Char)
  | [], cs => some cs
  | w :: ws, c :: cs => if w = c then dropWord? ws cs else none
  | _ :: _, [] => none

/-- The digits at the start of a text, and what follows them. -/
def spanDigits (cs : List Char) : List Char × List Char := cs.span Char.isDigit

/-! ## Numbers -/

/-- The digits before the point: a zero stands alone. -/
def wholeDigits? (cs : List Char) : Option (List Char × List Char) :=
  match spanDigits cs with
  | ([], _) => none
  | (['0'], rest) => some (['0'], rest)
  | ('0' :: _, _) => none
  | (digits, rest) => some (digits, rest)

/-- The digits after a point, none where there is no point. -/
def fractionDigits? : List Char → Option (List Char × List Char)
  | '.' :: cs =>
    match spanDigits cs with
    | ([], _) => none
    | (digits, rest) => some (digits, rest)
  | cs => some ([], cs)

/-- The sign and the digits of an exponent. -/
def exponentDigits? (cs : List Char) : Option ((Bool × List Char) × List Char) :=
  let (negative, cs) :=
    match cs with
    | '-' :: cs => (true, cs)
    | '+' :: cs => (false, cs)
    | cs => (false, cs)
  match spanDigits cs with
  | ([], _) => none
  | (digits, rest) => some ((negative, digits), rest)

/-- The exponent, if one is written. -/
def exponent? : List Char → Option (Option (Bool × List Char) × List Char)
  | 'e' :: cs | 'E' :: cs => (exponentDigits? cs).map fun (e, rest) => (some e, rest)
  | cs => some (none, cs)

/-- A number and what follows it. -/
def number? (cs : List Char) : Option (NumberText × List Char) := do
  let (negative, cs) :=
    match cs with
    | '-' :: cs => (true, cs)
    | cs => (false, cs)
  let (whole, cs) ← wholeDigits? cs
  let (fraction, cs) ← fractionDigits? cs
  let (exponent, cs) ← exponent? cs
  return (⟨negative, whole, fraction, exponent⟩, cs)

/-! ## Strings -/

/-- The character that a backslash and a letter stand for. -/
def simpleEscape? : Char → Option Char
  | '"' => some '"'
  | '\\' => some '\\'
  | '/' => some '/'
  | 'b' => some '\x08'
  | 'f' => some '\x0c'
  | 'n' => some '\n'
  | 'r' => some '\r'
  | 't' => some '\t'
  | _ => none

/-- The parts of a string up to its closing quote, and what follows that. Control characters have
    to be escaped. -/
def stringUnits? : List Char → Option (List StringUnit × List Char)
  | [] => none
  | '"' :: cs => some ([], cs)
  | '\\' :: 'u' :: a :: b :: c :: d :: cs => do
    let n ← hexNumber? [a, b, c, d]
    let (units, rest) ← stringUnits? cs
    return (.unit n :: units, rest)
  | '\\' :: c :: cs => do
    let e ← simpleEscape? c
    let (units, rest) ← stringUnits? cs
    return (.char e :: units, rest)
  | c :: cs =>
    if c.toNat < 0x20 ∨ c = '\\' then none
    else do
      let (units, rest) ← stringUnits? cs
      return (.char c :: units, rest)

/-! ## Values -/

mutual

/-- A value at the start of a text, and what follows it. -/
def value? : (fuel : Nat) → List Char → Option (Source × List Char)
  | 0, _ => none
  | fuel + 1, cs =>
    match dropBlank cs with
    | '"' :: cs => (stringUnits? cs).map fun (units, rest) => (.string units, rest)
    | '[' :: cs =>
      match dropBlank cs with
      | ']' :: rest => some (.array [], rest)
      | cs => (elements? fuel cs).map fun (es, rest) => (.array es, rest)
    | '{' :: cs =>
      match dropBlank cs with
      | '}' :: rest => some (.object [], rest)
      | cs => (members? fuel cs).map fun (ms, rest) => (.object ms, rest)
    | 'n' :: cs => (dropWord? "ull".toList cs).map (.null, ·)
    | 't' :: cs => (dropWord? "rue".toList cs).map (.bool true, ·)
    | 'f' :: cs => (dropWord? "alse".toList cs).map (.bool false, ·)
    | cs => (number? cs).map fun (n, rest) => (.number n, rest)

/-- One or more elements up to the closing bracket, and what follows that. -/
def elements? : (fuel : Nat) → List Char → Option (List Source × List Char)
  | 0, _ => none
  | fuel + 1, cs =>
    match value? fuel cs with
    | none => none
    | some (e, rest) =>
      match dropBlank rest with
      | ']' :: rest => some ([e], rest)
      | ',' :: rest => (elements? fuel rest).map fun (es, rest) => (e :: es, rest)
      | _ => none

/-- One or more members up to the closing brace, and what follows that. -/
def members? : (fuel : Nat) → List Char → Option (List (List StringUnit × Source) × List Char)
  | 0, _ => none
  | fuel + 1, cs =>
    match dropBlank cs with
    | '"' :: cs =>
      match stringUnits? cs with
      | none => none
      | some (key, rest) =>
        match dropBlank rest with
        | ':' :: rest =>
          match value? fuel rest with
          | none => none
          | some (v, rest) =>
            match dropBlank rest with
            | '}' :: rest => some ([(key, v)], rest)
            | ',' :: rest => (members? fuel rest).map fun (ms, rest) => ((key, v) :: ms, rest)
            | _ => none
        | _ => none
    | _ => none

end

/-- A whole text: one value with blanks around it. A value and a list are each entered at most
    once per character, which bounds the nesting of calls. -/
def Source.parse? (cs : List Char) : Option Source :=
  match value? (2 * cs.length + 2) cs with
  | some (source, rest) => if dropBlank rest = [] then some source else none
  | none => none

end SchemaFilter.Json
