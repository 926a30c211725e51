import SchemaFilter.Grammar.Failure
import SchemaFilter.Number.Word
import SchemaFilter.Schema.Basic
import SchemaFilter.Schema.Error
import SchemaFilter.Schema.Grammar
import SchemaFilter.Text.Blank

/-!
# Reading schemas

A text that matches the schema grammar is read model by model. Two things the grammar does not see
can still go wrong: an integer literal beyond 64 bits, and a name declared twice, which is refused
here although `Schema.add` would replace the first declaration.

Main definitions:

* `Schema.parse`: the schema of a text, or the first error;
* `SchemaText.listParts`: the parts that one piece of the grammar reads at the start of a text.
-/

namespace SchemaFilter

open Grammar

namespace SchemaText

abbrev Part := Node Symbol

/-- The identifier among some parts; the grammar puts one wherever this is asked. -/
def identOf (parts : List Part) : Ident :=
  match parts.find? (·.symbol == .identifier) with
  | some n => ⟨n.string, n.span⟩
  | none => default

/-! ## Documentation -/

/-- The text without the triples of slashes at its start. -/
def dropSlashes : List Char → List Char
  | '/' :: '/' :: '/' :: rest => dropSlashes rest
  | cs => cs

/-- A documentation line without its slashes and the blanks around it. -/
def docLineText (line : Part) : String := String.ofList (trimBlank (dropSlashes line.text))

def documentationOf (parts : List Part) : Option Documentation :=
  (parts.find? (·.symbol == .documentation)).map fun n =>
    ⟨"\n".intercalate (n.children.map docLineText), n.span⟩

/-! ## Attributes -/

/-- The number that decimal digits write. -/
def digitsValue (digits : List Char) : Nat :=
  digits.foldl (fun acc c => acc * 10 + (c.toNat - '0'.toNat)) 0

/-- The integer that an optional minus sign and digits write. -/
def integerValue : List Char → Int
  | '-' :: digits => -(digitsValue digits : Int)
  | digits => digitsValue digits

/-- The argument that a literal or an identifier stands for. The quotes of a string are not part of
    its value, and a backslash in it means itself. -/
def readArgument (n : Part) : Except SchemaError AttributeValue :=
  match n.symbol with
  | .stringLiteral => .ok (.string (String.ofList (n.text.tail.dropLast)))
  | .numberLiteral =>
    match int64OfInt? (integerValue n.text) with
    | some i => .ok (.int i)
    | none => .error (.malformedText .integerOutOfRange n.span.start n.span.length)
  | .booleanLiteral => .ok (.bool (n.string == "true"))
  | _ => .ok (.ident n.string)

def readAttribute (n : Part) : Except SchemaError Attribute := do
  let args ← (n.children.filter (·.symbol == .arguments)).mapM fun list =>
    list.children.mapM readArgument
  return ⟨identOf n.children, args.flatten, n.span⟩

/-- The attributes among some parts, in order. -/
def readAttributes (symbol : Symbol) (parts : List Part) : Except SchemaError (List Attribute) :=
  (parts.filter (·.symbol == symbol)).mapM readAttribute

/-! ## Fields -/

/-- The declared type: the type name and the marks after it. -/
def readFieldType (n : Part) : FieldType × Modifier :=
  let name := ((n.children.find? (·.symbol == .typeName)).map (·.string)).getD ""
  let marked (symbol : Symbol) : Bool := n.children.any (·.symbol == symbol)
  (.ofName name, .ofMarks (marked .listMarker) (marked .optionalMarker))

def readField (n : Part) : Except SchemaError Field := do
  let attributes ← readAttributes .fieldAttribute n.children
  let (type, modifier) :=
    ((n.children.find? (·.symbol == .fieldType)).map readFieldType).getD (default, default)
  return ⟨identOf n.children, type, modifier, attributes, documentationOf n.children, n.span⟩

/-! ## Models -/

/-- A thing that a model declares. -/
inductive ModelItem where
  | field (f : Field)
  | modelAttribute (a : Attribute)

/-- The field or attribute that a part of a model declares, if it declares one. -/
def readModelItem (n : Part) : Except SchemaError (Option ModelItem) :=
  match n.symbol with
  | .field => (readField n).map fun f => some (.field f)
  | .modelAttribute => (readAttribute n).map fun a => some (.modelAttribute a)
  | _ => .ok none

def ModelItem.field? : ModelItem → Option Field
  | field f => some f
  | modelAttribute _ => none

def ModelItem.modelAttribute? : ModelItem → Option Attribute
  | field _ => none
  | modelAttribute a => some a

/-- Declares fields one after the other; a second one of the same name is refused. -/
def declareFields (m : Model) : List Field → Except SchemaError Model
  | [] => .ok m
  | f :: fs =>
    if m.fields.contains f.name then .error (.duplicate .field s!"{m.name}.{f.name}")
    else declareFields (m.addField f) fs

/-- A model: all its items are read before their names are compared. -/
def readModel (n : Part) : Except SchemaError Model := do
  let items := (← n.children.mapM readModelItem).filterMap id
  let model : Model :=
    ⟨identOf n.children, .empty, items.filterMap (·.modelAttribute?), documentationOf n.children,
      n.span⟩
  declareFields model (items.filterMap (·.field?))

/-- Declares models one after the other; a second one of the same name is refused. -/
def declareModels (s : Schema) : List Part → Except SchemaError Schema
  | [] => .ok s
  | n :: ns => do
    let m ← readModel n
    if s.declares m.name then .error (.duplicate .model m.name)
    else declareModels (s.add m) ns

/-! ## Texts -/

/-- The parts that an expression of the grammar reads at the start of a text, which may go on after
    them, or else the offset of the failure. -/
def matchPart (e : Expr Symbol) (text : List Char) : Except Nat (List Part) :=
  match e.match? skipBlank (.start text) with
  | some (_, parts) => .ok parts
  | none => .error (e.failure skipBlank (.start text))

/-- The listing of what an expression of the grammar reads: names and spans, outer parts first. -/
def listParts (e : Expr Symbol) (text : List Char) : Except Nat (List (String × Span)) :=
  (matchPart e text).map fun parts =>
    (preorders parts).map fun (symbol, span) => (symbol.name, span)

end SchemaText

/-- The schema of a text. -/
def Schema.parse (text : String) : Except SchemaError Schema :=
  match SchemaText.matchPart SchemaText.schema text.toList with
  | .error offset => .error (.malformedText .unexpected offset 0)
  | .ok parts =>
    SchemaText.declareModels .empty
      ((parts.flatMap (·.children)).filter (·.symbol == .model))

/-- The schema in a file of the given bytes, which have to be UTF-8. -/
def Schema.parseBytes (path : String) (bytes : ByteArray) : Except SchemaError Schema :=
  match String.fromUTF8? bytes with
  | none => .error (.unreadableFile path)
  | some text => Schema.parse text

end SchemaFilter
