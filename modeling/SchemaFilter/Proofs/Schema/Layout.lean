import Mathlib.Data.List.Forall2
import Mathlib.Data.Nat.Digits.Defs
import SchemaFilter.Proofs.Grammar.Matching
import SchemaFilter.Schema.Reader

/-!
# The language of schema texts

Schema texts without a parser: a text is a *layout* of model definitions if it is their tokens in
order, with blanks and comments before, between and after them. Which definitions can be declared
together, and what a schema says that declares them, is stated here too; spans are left out of it.

Main definitions:

* `Token` and `Layout`: the tokens of the language and the texts that are made of them;
* `ModelDef` and `ModelDef.tokens`: what is written down for a model, and how;
* `AttributeDef.Declares`, `FieldDef.Declares`, `ModelDef.Declares`: what a schema says that
  declares the definitions;
* `Declarable`: the definitions that make a schema.
-/

namespace SchemaFilter.SchemaText

open Grammar

/-! ## Tokens -/

/-- A letter or underscore, then letters, digits and underscores. -/
def IsName : List Char → Prop
  | [] => False
  | c :: cs => isIdentStart c = true ∧ ∀ d ∈ cs, isIdentChar d = true

/-- An identifier, a keyword or the name of a type. -/
abbrev Name := {cs : List Char // IsName cs}

def modelWord : Name := ⟨['m', 'o', 'd', 'e', 'l'], by decide, List.all_eq_true.mp (by decide)⟩

def trueWord : Name := ⟨['t', 'r', 'u', 'e'], by decide, List.all_eq_true.mp (by decide)⟩

def falseWord : Name := ⟨['f', 'a', 'l', 's', 'e'], by decide, List.all_eq_true.mp (by decide)⟩

/-- A text within one line. -/
abbrev LineText := {cs : List Char // ∀ c ∈ cs, (!isLineEnd c) = true}

/-- A text that can stand between double quotes. -/
abbrev Quotable := {cs : List Char // ∀ c ∈ cs, decide (c ≠ '"') = true}

/-- Decimal digits, at least one. -/
abbrev Digits := {cs : List Char // cs ≠ [] ∧ ∀ c ∈ cs, c.isDigit = true}

/-- The marks of the language. -/
inductive Mark where
  | openBrace | closeBrace | openParen | closeParen | comma | atSign | doubleAt
  deriving DecidableEq

def Mark.text : Mark → List Char
  | openBrace => ['\x7b']
  | closeBrace => ['\x7d']
  | openParen => ['(']
  | closeParen => [')']
  | comma => [',']
  | atSign => ['@']
  | doubleAt => ['@', '@']

/-- A piece of a schema text in which nothing is skipped. -/
inductive Token where
  /-- A documentation line; the text is what follows the three slashes. -/
  | docLine (text : LineText)
  | word (name : Name)
  /-- A type name with the marks after it. -/
  | type (name : Name) (isList isOptional : Bool)
  | string (content : Quotable)
  | number (isNegative : Bool) (digits : Digits)
  | mark (m : Mark)
  deriving DecidableEq

/-- How a token is written. -/
def Token.text : Token → List Char
  | docLine text => '/' :: '/' :: '/' :: text.val
  | word name => name.val
  | type name isList isOptional =>
    name.val ++ ((if isList then ['[', ']'] else []) ++ if isOptional then ['?'] else [])
  | string content => '"' :: (content.val ++ ['"'])
  | number isNegative digits => (if isNegative then ['-'] else []) ++ digits.val
  | mark m => m.text

/-- Whether the token ends where the given text follows: names and numbers are as long as they can
    be, and a documentation line ends with its line. -/
def Token.EndsBefore : Token → List Char → Prop
  | docLine _, rest => Stops (!isLineEnd ·) rest
  | word _, rest | type _ false false, rest => Stops isIdentChar rest
  | number _ _, rest => Stops Char.isDigit rest
  | type _ _ _, _ | string _, _ | mark _, _ => True

/-- The text is the given tokens with blanks and comments around them. -/
inductive Layout : List Token → List Char → Prop
  | nil : Layout [] []
  | blank {c : Char} {cs : List Char} {ts : List Token} (hblank : isBlankChar c = true)
      (others : Layout ts cs) : Layout ts (c :: cs)
  /-- A comment up to the end of its line. With a third slash it would be documentation. -/
  | comment {body cs : List Char} {ts : List Token} (hline : ∀ c ∈ body, (!isLineEnd c) = true)
      (hslash : Stops (· == '/') body) (hend : Stops (!isLineEnd ·) cs) (others : Layout ts cs) :
      Layout ts ('/' :: '/' :: (body ++ cs))
  | token {t : Token} {cs : List Char} {ts : List Token} (hend : t.EndsBefore cs)
      (others : Layout ts cs) : Layout (t :: ts) (t.text ++ cs)

/-! ## Definitions -/

/-- An argument of an attribute; a word is a boolean or an identifier. -/
inductive ArgumentDef where
  | string (content : Quotable)
  | number (isNegative : Bool) (digits : Digits)
  | word (name : Name)
  deriving DecidableEq

/-- An attribute, with the arguments in parentheses if there are any parentheses. -/
structure AttributeDef where
  name : Name
  arguments : Option (List ArgumentDef)
  deriving DecidableEq

structure FieldDef where
  docs : List LineText
  name : Name
  type : Name
  isList : Bool
  isOptional : Bool
  attributes : List AttributeDef
  deriving DecidableEq

inductive ItemDef where
  | field (f : FieldDef)
  | modelAttribute (a : AttributeDef)
  deriving DecidableEq

structure ModelDef where
  docs : List LineText
  name : Name
  items : List ItemDef
  deriving DecidableEq

def ArgumentDef.token : ArgumentDef → Token
  | string content => .string content
  | number isNegative digits => .number isNegative digits
  | word name => .word name

/-- Arguments with commas between them. -/
def argumentTokens : List ArgumentDef → List Token
  | [] => []
  | a :: as => a.token :: as.flatMap fun b => [.mark .comma, b.token]

def AttributeDef.tokens (mark : Mark) (a : AttributeDef) : List Token :=
  .mark mark :: .word a.name ::
    match a.arguments with
    | none => []
    | some as => .mark .openParen :: (argumentTokens as ++ [.mark .closeParen])

def FieldDef.tokens (f : FieldDef) : List Token :=
  f.docs.map .docLine ++ .word f.name :: .type f.type f.isList f.isOptional ::
    f.attributes.flatMap (·.tokens .atSign)

def ItemDef.tokens : ItemDef → List Token
  | field f => f.tokens
  | modelAttribute a => a.tokens .doubleAt

def ModelDef.tokens (m : ModelDef) : List Token :=
  m.docs.map .docLine ++ .word modelWord :: .word m.name :: .mark .openBrace ::
    (m.items.flatMap ItemDef.tokens ++ [.mark .closeBrace])

/-- The text is the definitions written token by token. -/
def IsLayout (ms : List ModelDef) (text : String) : Prop :=
  Layout (ms.flatMap ModelDef.tokens) text.toList

/-! ## What definitions declare -/

/-- The integer that a sign and digits write, the last digit being the ones. -/
def writtenInteger (isNegative : Bool) (digits : Digits) : Int :=
  let n : Nat := Nat.ofDigits 10 (digits.val.reverse.map fun c => c.toNat - '0'.toNat)
  if isNegative then -n else n

/-- What an argument means; a number beyond 64 bits means nothing. -/
def ArgumentDef.value? : ArgumentDef → Option AttributeValue
  | string content => some (.string (String.ofList content.val))
  | number isNegative digits =>
    let i := writtenInteger isNegative digits
    if -0x8000000000000000 ≤ i ∧ i < 0x8000000000000000 then some (.int (.ofInt i)) else none
  | word name =>
    some (if name = trueWord then .bool true
      else if name = falseWord then .bool false
      else .ident (String.ofList name.val))

/-- The arguments of an attribute; without parentheses there are none. -/
def AttributeDef.argumentList (a : AttributeDef) : List ArgumentDef := a.arguments.getD []

/-- The names of a scalar type. -/
def scalarNames : ScalarType → List String
  | .int => ["Int", "Integer"]
  | .bigInt => ["BigInt", "Long"]
  | .float => ["Float"]
  | .decimal => ["Decimal"]
  | .string => ["String"]
  | .boolean => ["Boolean", "Bool"]
  | .dateTime => ["DateTime"]
  | .date => ["Date"]
  | .time => ["Time"]
  | .json => ["Json"]
  | .bytes => ["Bytes"]
  | .uuid => ["Uuid", "UUID"]

/-- What a type name means: a scalar type, or else the model of this name. -/
inductive TypeMeans (name : String) : FieldType → Prop
  | scalar {type : ScalarType} (h : name ∈ scalarNames type) : TypeMeans name (.scalar type)
  | relation (h : ∀ type, name ∉ scalarNames type) : TypeMeans name (.relation name)

/-- The second text is the first one after the triples of slashes that it starts with. -/
inductive AfterSlashes : List Char → List Char → Prop
  | triple {cs rest : List Char} (others : AfterSlashes cs rest) :
      AfterSlashes ('/' :: '/' :: '/' :: cs) rest
  | done {rest : List Char} (h : ¬['/', '/', '/'] <+: rest) : AfterSlashes rest rest

/-- The text is the content between blanks, and the content itself neither starts nor ends with a
    blank. -/
structure IsBetweenBlanks (content text : List Char) : Prop where
  written : ∃ before after : List Char, text = before ++ (content ++ after) ∧
    (∀ c ∈ before, isBlank c = true) ∧ ∀ c ∈ after, isBlank c = true
  start : Stops isBlank content
  stop : Stops isBlank content.reverse

/-- What a documentation line says, of which the text after the first slashes is given. -/
def SaysLine (line : LineText) (content : List Char) : Prop :=
  ∃ rest, AfterSlashes line.val rest ∧ IsBetweenBlanks content rest

/-- The documentation that some lines give; no lines give none. -/
inductive Documents : List LineText → Option String → Prop
  | none : Documents [] none
  | some {l : LineText} {ls : List LineText} {contents : List (List Char)}
      (h : List.Forall₂ SaysLine (l :: ls) contents) :
      Documents (l :: ls) (some ("\n".intercalate (contents.map String.ofList)))

/-- The attribute says what is defined. -/
structure AttributeDef.Declares (d : AttributeDef) (a : Attribute) : Prop where
  name : a.name = String.ofList d.name.val
  args : List.Forall₂ (fun b v => b.value? = some v) d.argumentList a.args

/-- The field says what is defined. -/
structure FieldDef.Declares (d : FieldDef) (f : Field) : Prop where
  name : f.name = String.ofList d.name.val
  type : TypeMeans (String.ofList d.type.val) f.type
  isList : f.modifier.isList = d.isList
  isOptional : f.modifier.isOptional = d.isOptional
  attributes : List.Forall₂ AttributeDef.Declares d.attributes f.attributes
  documentation : Documents d.docs (f.documentation.map (·.text))

def ItemDef.field? : ItemDef → Option FieldDef
  | field f => some f
  | modelAttribute _ => none

def ItemDef.attributes : ItemDef → List AttributeDef
  | field f => f.attributes
  | modelAttribute a => [a]

def ItemDef.modelAttribute? : ItemDef → Option AttributeDef
  | field _ => none
  | modelAttribute a => some a

/-- The fields of a model, in order. -/
def ModelDef.fields (m : ModelDef) : List FieldDef := m.items.filterMap ItemDef.field?

/-- The attributes of the model itself, in order. -/
def ModelDef.attributes (m : ModelDef) : List AttributeDef :=
  m.items.filterMap ItemDef.modelAttribute?

/-- The model says what is defined. -/
structure ModelDef.Declares (d : ModelDef) (m : Model) : Prop where
  name : m.name = String.ofList d.name.val
  fields : List.Forall₂ FieldDef.Declares d.fields m.fields.items
  attributes : List.Forall₂ AttributeDef.Declares d.attributes m.attributes
  documentation : Documents d.docs (m.documentation.map (·.text))

/-- All arguments in the definition of a model. -/
def ModelDef.allArguments (m : ModelDef) : List ArgumentDef :=
  (m.items.flatMap ItemDef.attributes).flatMap (·.argumentList)

/-- The definitions can be declared together: no two models and no two fields of one model share a
    name, and all integers have 64 bits. -/
structure Declarable (ms : List ModelDef) : Prop where
  models : (ms.map (·.name)).Nodup
  fields : ∀ m ∈ ms, (m.fields.map (·.name)).Nodup
  integers : ∀ m ∈ ms, ∀ a ∈ m.allArguments, a.value?.isSome = true

end SchemaFilter.SchemaText
