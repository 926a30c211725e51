import SchemaFilter.Toml.Basic
import SchemaFilter.Toml.Scalar

/-!
# Reading TOML

The statements of a TOML 1.0 text, and the table they fill. `Table.parse?` is `none` for a text that
is not TOML; nothing more is said about what is wrong with it.
-/

namespace SchemaFilter.Toml

/-! ## Blanks, comments and line ends -/

def isBlankChar (c : Char) : Bool := c == ' ' || c == '\t'

def dropBlank (cs : List Char) : List Char := cs.dropWhile isBlankChar

/-- Whether a character may stand in a comment or a string: no control character but the tab. -/
def isTextChar (c : Char) : Bool := c == '\t' || (0x20 ≤ c.toNat && c.toNat ≠ 0x7F)

/-- The rest of a text without the comment at its start, if one is there. -/
def dropComment : List Char → List Char
  | '#' :: cs => cs.dropWhile isTextChar
  | cs => cs

/-- The rest of a text after the line end at its start. -/
def afterLineEnd? : List Char → Option (List Char)
  | '\n' :: cs => some cs
  | '\r' :: '\n' :: cs => some cs
  | _ => none

/-- The rest of a text without the blanks, comments and line ends at its start. Every round but the
    last one takes a line end away. -/
def dropLines : (fuel : Nat) → List Char → List Char
  | 0, cs => cs
  | fuel + 1, cs =>
    match afterLineEnd? (dropComment (dropBlank cs)) with
    | some rest => dropLines fuel rest
    | none => dropBlank cs

/-- The rest of a text after what may stand at the end of a line. -/
def endLine? (cs : List Char) : Option (List Char) :=
  match dropComment (dropBlank cs) with
  | [] => some []
  | cs => afterLineEnd? cs

/-! ## Strings -/

/-- The character of an escape after its backslash, and what follows. -/
def escape? : List Char → Option (Char × List Char)
  | 'b' :: cs => some ('\x08', cs)
  | 't' :: cs => some ('\t', cs)
  | 'n' :: cs => some ('\n', cs)
  | 'f' :: cs => some ('\x0c', cs)
  | 'r' :: cs => some ('\r', cs)
  | '"' :: cs => some ('"', cs)
  | '\\' :: cs => some ('\\', cs)
  | 'u' :: cs => codePoint? 4 cs
  | 'U' :: cs => codePoint? 8 cs
  | _ => none
where
  /-- The character with the code point that `count` hexadecimal digits write. -/
  codePoint? (count : Nat) (cs : List Char) : Option (Char × List Char) := do
    let digits := cs.take count
    let n ← hexNumber? digits
    if digits.length = count ∧ n.isValidChar then some (Char.ofNat n, cs.drop count) else none

/-- A string in double quotes after its opening quote, and what follows it. -/
def basicString? : (fuel : Nat) → List Char → Option (List Char × List Char)
  | 0, _ | _, [] => none
  | _, '"' :: cs => some ([], cs)
  | fuel + 1, '\\' :: cs => do
    let (c, cs) ← escape? cs
    let (text, rest) ← basicString? fuel cs
    return (c :: text, rest)
  | fuel + 1, c :: cs =>
    if isTextChar c then (basicString? fuel cs).map fun (text, rest) => (c :: text, rest) else none

/-- A string in single quotes after its opening quote, and what follows it. -/
def literalString? : List Char → Option (List Char × List Char)
  | [] => none
  | '\'' :: cs => some ([], cs)
  | c :: cs =>
    if isTextChar c then (literalString? cs).map fun (text, rest) => (c :: text, rest) else none

/-- The rest of a text without the line end at its start, if one is there. -/
def dropLineEnd (cs : List Char) : List Char := (afterLineEnd? cs).getD cs

/-- The end of a string of many lines, at a run of three to five quotes: all but three of them
    belong to the string. -/
def closeLines? (quote : Char) (cs : List Char) : Option (List Char × List Char) :=
  let run := cs.takeWhile (· == quote)
  if 3 ≤ run.length then
    some (run.take (min (run.length - 3) 2), cs.drop (min run.length 5))
  else none

/-- The rest of a text after a backslash that ends a line: the blanks and line ends that follow. -/
def continueLine? (cs : List Char) : Option (List Char) :=
  (afterLineEnd? (dropBlank cs)).map fun rest => dropBlankLines rest.length rest
where
  dropBlankLines : Nat → List Char → List Char
    | 0, cs => cs
    | fuel + 1, cs =>
      match afterLineEnd? (dropBlank cs) with
      | some rest => dropBlankLines fuel rest
      | none => dropBlank cs

/-- A string of many lines in double quotes after the quotes that open it, and what follows it. -/
def basicLines? : (fuel : Nat) → List Char → Option (List Char × List Char)
  | 0, _ | _, [] => none
  | fuel + 1, c :: cs =>
    match closeLines? '"' (c :: cs) with
    | some found => some found
    | none =>
      if c = '\\' then
        match continueLine? cs with
        | some rest => basicLines? fuel rest
        | none => do
          let (e, cs) ← escape? cs
          let (text, rest) ← basicLines? fuel cs
          return (e :: text, rest)
      else
        match afterLineEnd? (c :: cs) with
        | some rest => (basicLines? fuel rest).map fun (text, rest) => ('\n' :: text, rest)
        | none =>
          if isTextChar c then
            (basicLines? fuel cs).map fun (text, rest) => (c :: text, rest)
          else none

/-- A string of many lines in single quotes after the quotes that open it, and what follows it. -/
def literalLines? : (fuel : Nat) → List Char → Option (List Char × List Char)
  | 0, _ | _, [] => none
  | fuel + 1, c :: cs =>
    match closeLines? '\'' (c :: cs) with
    | some found => some found
    | none =>
      match afterLineEnd? (c :: cs) with
      | some rest => (literalLines? fuel rest).map fun (text, rest) => ('\n' :: text, rest)
      | none =>
        if isTextChar c then
          (literalLines? fuel cs).map fun (text, rest) => (c :: text, rest)
        else none

/-- A string of one line, and what follows it. -/
def lineString? : List Char → Option (List Char × List Char)
  | '"' :: cs => basicString? (cs.length + 1) cs
  | '\'' :: cs => literalString? cs
  | _ => none

/-- A string of any form, and what follows it. -/
def string? : List Char → Option (List Char × List Char)
  | '"' :: '"' :: '"' :: cs => basicLines? (cs.length + 1) (dropLineEnd cs)
  | '\'' :: '\'' :: '\'' :: cs => literalLines? (cs.length + 1) (dropLineEnd cs)
  | cs => lineString? cs

/-! ## Keys -/

def isBareKeyChar (c : Char) : Bool := c.isAlphanum || c == '_' || c == '-'

/-- A key without dots, and what follows it. -/
def simpleKey? (cs : List Char) : Option (List Char × List Char) :=
  match lineString? cs with
  | some found => some found
  | none =>
    let bare := cs.takeWhile isBareKeyChar
    if bare.isEmpty then none else some (bare, cs.dropWhile isBareKeyChar)

/-- How deep arrays and tables may be nested in a value, and how many parts a key may have. -/
def maxDepth : Nat := 79

/-- At most `count` parts of a key, with dots and maybe blanks between them, and what follows. -/
def keyParts? : (count : Nat) → List Char → Option (List String × List Char)
  | 0, _ => none
  | count + 1, cs => do
    let (first, rest) ← simpleKey? cs
    match dropBlank rest with
    | '.' :: rest =>
      let (path, rest) ← keyParts? count (dropBlank rest)
      return (String.ofList first :: path, rest)
    | _ => return ([String.ofList first], rest)

/-- A key, split at its dots, and what follows it. -/
def key? (cs : List Char) : Option (List String × List Char) := keyParts? maxDepth cs

/-- A key and the equals sign after it, and what follows that. -/
def keyEquals? (cs : List Char) : Option (List String × List Char) := do
  let (path, rest) ← key? cs
  match dropBlank rest with
  | '=' :: rest => some (path, dropBlank rest)
  | _ => none

/-! ## Values -/

/-- Whether a character can stand in a scalar that is no string. -/
def isWordChar (c : Char) : Bool := c.isAlphanum || ['+', '-', '_', '.', ':'].contains c

/-- A scalar that is no string, and what follows it. A date and a time may have a blank between
    them. -/
def scalar? (cs : List Char) : Option (Item × List Char) :=
  let word := cs.takeWhile isWordChar
  let rest := cs.dropWhile isWordChar
  let (word, rest) :=
    match rest with
    | ' ' :: c :: more =>
      if c.isDigit && afterDate? word == some [] then
        (word ++ ' ' :: (c :: more).takeWhile isWordChar, (c :: more).dropWhile isWordChar)
      else (word, rest)
    | _ => (word, rest)
  if isScalar word then some (.scalar, rest) else none

mutual

/-- A value, and what follows it. Arrays and tables may be nested `room` deep in it; the fuel bounds
    the number of values. -/
def value? : (fuel room : Nat) → List Char → Option (Item × List Char)
  | 0, _, _ => none
  | fuel + 1, room, cs =>
    match cs, room with
    | '"' :: _, _ | '\'' :: _, _ =>
      (string? cs).map fun (text, rest) => (.string (String.ofList text), rest)
    | '[' :: _, 0 | '{' :: _, 0 => none
    | '[' :: cs, room + 1 => (elements? fuel room cs).map fun (es, rest) => (.array es, rest)
    | '{' :: cs, room + 1 =>
      match dropBlank cs with
      | '}' :: rest => some (.table .inline [], rest)
      | cs => do
        let (statements, rest) ← statements? fuel room cs
        return (← Item.inline? statements, rest)
    | cs, _ => scalar? cs

/-- The elements of an array up to its closing bracket, and what follows that. -/
def elements? : (fuel room : Nat) → List Char → Option (List Item × List Char)
  | 0, _, _ => none
  | fuel + 1, room, cs =>
    match dropLines cs.length cs with
    | ']' :: rest => some ([], rest)
    | cs =>
      match value? fuel room cs with
      | none => none
      | some (e, rest) =>
        match dropLines rest.length rest with
        | ']' :: rest => some ([e], rest)
        | ',' :: rest => (elements? fuel room rest).map fun (es, rest) => (e :: es, rest)
        | _ => none

/-- The statements between braces up to the closing brace, and what follows that. -/
def statements? : (fuel room : Nat) → List Char → Option (List Statement × List Char)
  | 0, _, _ => none
  | fuel + 1, room, cs =>
    match keyEquals? cs with
    | none => none
    | some (path, rest) =>
      match value? fuel room rest with
      | none => none
      | some (item, rest) =>
        match dropBlank rest with
        | '}' :: rest => some ([(path, item)], rest)
        | ',' :: rest =>
          (statements? fuel room (dropBlank rest)).map fun (more, rest) =>
            ((path, item) :: more, rest)
        | _ => none

end

/-! ## Documents -/

/-- A line with content. -/
inductive Line where
  | statement (s : Statement)
  | header (path : List String)
  | elementHeader (path : List String)

/-- The content of a line, and what follows it on the line. -/
def line? (cs : List Char) : Option (Line × List Char) :=
  match cs with
  | '[' :: '[' :: cs => do
    let (path, rest) ← key? (dropBlank cs)
    match dropBlank rest with
    | ']' :: ']' :: rest => some (.elementHeader path, rest)
    | _ => none
  | '[' :: cs => do
    let (path, rest) ← key? (dropBlank cs)
    match dropBlank rest with
    | ']' :: rest => some (.header path, rest)
    | _ => none
  | cs => do
    let (path, rest) ← keyEquals? cs
    let (item, rest) ← value? (2 * rest.length + 2) maxDepth rest
    return (.statement (path, item), rest)

/-- The lines of a text. -/
def lines? : (fuel : Nat) → List Char → Option (List Line)
  | 0, _ => none
  | fuel + 1, cs =>
    match dropLines cs.length cs with
    | [] => some []
    | '#' :: cs => if (cs.dropWhile isTextChar).isEmpty then some [] else none
    | cs => do
      let (line, rest) ← line? cs
      return line :: (← lines? fuel (← endLine? rest))

/-- The statements before the first header, and the sections. -/
def sections : List Line → List Statement × List Section
  | [] => ([], [])
  | .statement s :: lines =>
    let (statements, rest) := sections lines
    (s :: statements, rest)
  | .header path :: lines =>
    let (statements, rest) := sections lines
    ([], .table path statements :: rest)
  | .elementHeader path :: lines =>
    let (statements, rest) := sections lines
    ([], .element path statements :: rest)

/-- The content of a TOML text. A byte order mark at its start is ignored. -/
def Table.parse? (text : String) : Option Table := do
  let cs := match text.toList with
    | '\ufeff' :: cs => cs
    | cs => cs
  let (statements, rest) := sections (← lines? (cs.length + 1) cs)
  ofSections? statements rest

end SchemaFilter.Toml
