import SchemaFilter.Grammar.Basic

/-!
# The schema language

The grammar of schema texts:

```text
/// Documentation of the model.
model Order {
  id    BigInt @id
  note  String? @map("remark")   // a comment
  lines Line[]
  @@map("orders")
}
```

Blanks and `//` comments may stand between the words, but not inside identifiers, literals,
documentation lines and field types. A comment does not start with three slashes, for then it is
documentation.
-/

namespace SchemaFilter.SchemaText

open Grammar Grammar.Expr

/-- The named parts of a schema text. -/
inductive Symbol where
  | schema | documentation | docLine | modelKeyword | model | field | fieldType | typeName
  | listMarker | optionalMarker | fieldAttribute | modelAttribute | arguments | stringLiteral
  | numberLiteral | booleanLiteral | identifier | endOfText
  deriving DecidableEq, Repr, Inhabited

/-- The name of a part in listings of what was read. -/
def Symbol.name : Symbol → String
  | schema => "schema"
  | documentation => "documentation"
  | docLine => "doc_line"
  | modelKeyword => "model_keyword"
  | model => "model_def"
  | field => "field_def"
  | fieldType => "field_type"
  | typeName => "type_name"
  | listMarker => "list_marker"
  | optionalMarker => "optional_marker"
  | fieldAttribute => "field_attribute"
  | modelAttribute => "model_attribute"
  | arguments => "attribute_args"
  | stringLiteral => "string_literal"
  | numberLiteral => "number_literal"
  | booleanLiteral => "boolean_literal"
  | identifier => "identifier"
  | endOfText => "EOI"

/-! ## Blanks and comments -/

def isBlankChar (c : Char) : Bool := c == ' ' || c == '\t' || c == '\r' || c == '\n'

def isLineEnd (c : Char) : Bool := c == '\n' || c == '\r'

/-- Whether a comment starts here: two slashes and not a third. -/
def startsComment : List Char → Bool
  | '/' :: '/' :: '/' :: _ => false
  | '/' :: '/' :: _ => true
  | _ => false

/-- Skips blanks and comments; inside a comment it first looks for the end of the line. -/
def skipFrom : (inComment : Bool) → (offset : Nat) → List Char → Cursor
  | _, offset, [] => ⟨offset, []⟩
  | true, offset, c :: cs => skipFrom (!isLineEnd c) (offset + c.utf8Size) cs
  | false, offset, c :: cs =>
    if isBlankChar c then skipFrom false (offset + c.utf8Size) cs
    else if startsComment (c :: cs) then skipFrom true (offset + c.utf8Size) cs
    else ⟨offset, c :: cs⟩

/-- Moves a cursor past the blanks and comments that follow it. -/
def skipBlank (c : Cursor) : Cursor := skipFrom false c.offset c.rest

/-! ## The parts -/

def isIdentStart (c : Char) : Bool := c.isAlpha || c == '_'

def isIdentChar (c : Char) : Bool := c.isAlphanum || c == '_'

def text (s : String) : Expr Symbol := .word s.toList

/-- The rest of a line. -/
def restOfLine : Expr Symbol := .many (.char (!isLineEnd ·))

/-- The shape of identifiers and type names. -/
def name : Expr Symbol := .seq (.char isIdentStart) (.many (.char isIdentChar))

def identifier : Expr Symbol := .token .identifier name

def docLine : Expr Symbol := .token .docLine (.seq (text "///") restOfLine)

def documentation : Expr Symbol := .phrase .documentation (.several docLine)

def stringLiteral : Expr Symbol :=
  .token .stringLiteral (.sequence [text "\"", .many (.char (· ≠ '"')), text "\""])

def numberLiteral : Expr Symbol :=
  .token .numberLiteral (.seq (.optional (text "-")) (.several (.char Char.isDigit)))

def booleanLiteral : Expr Symbol :=
  .token .booleanLiteral
    (.seq (.choice (text "true") (text "false")) (.notAhead (.char isIdentChar)))

def argument : Expr Symbol := .firstOf [stringLiteral, numberLiteral, booleanLiteral, identifier]

def arguments : Expr Symbol :=
  .phrase .arguments
    (.sequence [text "(", .optional (.seq argument (.many (.seq (text ",") argument))), text ")"])

/-- An attribute introduced by the given mark. -/
def markedAttribute (symbol : Symbol) (mark : String) : Expr Symbol :=
  .phrase symbol (.sequence [text mark, identifier, .optional arguments])

def fieldAttribute : Expr Symbol := markedAttribute .fieldAttribute "@"

def modelAttribute : Expr Symbol := markedAttribute .modelAttribute "@@"

def fieldType : Expr Symbol :=
  .compact .fieldType
    (.sequence [.token .typeName name, .optional (.phrase .listMarker (text "[]")),
      .optional (.phrase .optionalMarker (text "?"))])

def field : Expr Symbol :=
  .phrase .field
    (.sequence [.optional documentation, identifier, fieldType, .many fieldAttribute])

def modelItem : Expr Symbol := .choice modelAttribute field

def modelKeyword : Expr Symbol :=
  .token .modelKeyword (.seq (text "model") (.notAhead (.char isIdentChar)))

def model : Expr Symbol :=
  .phrase .model
    (.sequence [.optional documentation, modelKeyword, identifier, text "\x7b", .many modelItem,
      text "\x7d"])

/-- A schema text: models up to the end, with blanks before and after each. -/
def schema : Expr Symbol :=
  .phrase .schema (.sequence [text "", .many model, .phrase .endOfText .atEnd])

/-- The expression of a part, by its listed name. -/
def partNamed? : String → Option (Expr Symbol)
  | "schema" => some schema
  | "documentation" => some documentation
  | "doc_line" => some docLine
  | "model_keyword" => some modelKeyword
  | "model_def" => some model
  | "model_item" => some modelItem
  | "field_def" => some field
  | "field_type" => some fieldType
  | "type_name" => some (.token .typeName name)
  | "list_marker" => some (.phrase .listMarker (text "[]"))
  | "optional_marker" => some (.phrase .optionalMarker (text "?"))
  | "field_attribute" => some fieldAttribute
  | "model_attribute" => some modelAttribute
  | "attribute_args" => some arguments
  | "attribute_value" => some argument
  | "string_literal" => some stringLiteral
  | "number_literal" => some numberLiteral
  | "boolean_literal" => some booleanLiteral
  | "identifier" => some identifier
  | "ident_char" => some (.char isIdentChar)
  | _ => none

end SchemaFilter.SchemaText
