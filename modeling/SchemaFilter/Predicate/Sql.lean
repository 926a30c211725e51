import SchemaFilter.Predicate.Basic

/-!
# SQL conditions

A predicate as a condition of SQL with numbered placeholders, and the values that the placeholders
stand for. The condition is a list of tokens, written one after the other: identifiers in double
quotes, placeholders as `$n`. Values never enter the text.

Main definitions:

* `quoteIdentifier`: an identifier in quotes, quotes inside it doubled;
* `Predicate.sqlTokens`: the tokens, with placeholders numbered from a given number on, and the
  bound values in the order of their placeholders;
* `Predicate.toSql`: the text and the bound values.
-/

namespace SchemaFilter

/-- The characters of a name with every double quote doubled. -/
def doubleQuotes : List Char → List Char
  | [] => []
  | c :: cs => if c = '"' then '"' :: '"' :: doubleQuotes cs else c :: doubleQuotes cs

/-- An identifier in double quotes. -/
def quoteIdentifier (name : String) : String :=
  String.ofList ('"' :: (doubleQuotes name.toList ++ ['"']))

namespace Sql

/-- A piece of a condition. -/
inductive Token where
  /-- A column, qualified by its table or join. -/
  | column (qualifier column : String)
  | compare (restriction : Restriction)
  | isNull
  | isNotNull
  | placeholder (number : Nat)
  | openParen
  | closeParen
  /-- Between the elements of a list. -/
  | comma
  /-- Between the members of a group. -/
  | combine (op : Combine)
  | constant (value : Bool)
  deriving DecidableEq, Repr

/-- A token as it is written, with the spaces that belong to it. -/
def Token.text : Token → String
  | column q c => quoteIdentifier q ++ "." ++ quoteIdentifier c
  | compare r => " " ++ r.operator ++ " "
  | isNull => " IS NULL"
  | isNotNull => " IS NOT NULL"
  | placeholder n => "$" ++ toString n
  | openParen => "("
  | closeParen => ")"
  | comma => ", "
  | combine op => " " ++ op.name ++ " "
  | constant true => "TRUE"
  | constant false => "FALSE"

/-- The tokens one after the other. -/
def render (tokens : List Token) : String := String.join (tokens.map Token.text)

/-- `count` placeholders from number `first` on, with commas between them. -/
def placeholders : (first count : Nat) → List Token
  | _, 0 => []
  | first, 1 => [.placeholder first]
  | first, count + 1 => .placeholder first :: .comma :: placeholders (first + 1) count

end Sql

open Sql

/-- The values that membership tests against: the elements of a list, or a single value itself. -/
def Value.operands (v : Value) : List Value := v.list?.getD [v]

/-- The tokens and bound values of a leaf, the first placeholder having the given number. Equality
    with null is a test of its own, and membership in nothing is a constant. -/
def FieldRef.sqlTokens (f : FieldRef) (r : Restriction) (v : Value) (first : Nat) :
    List Token × List Value :=
  let column := Token.column f.qualifier f.column
  let comparison := ([column, .compare r, .placeholder first], [v])
  match r with
  | .equals => if v.isNull then ([column, .isNull], []) else comparison
  | .notEquals => if v.isNull then ([column, .isNotNull], []) else comparison
  | .isIn | .notIn =>
    if v.operands.isEmpty then ([.constant (r == .notIn)], [])
    else
      let elements := placeholders first v.operands.length
      (column :: .compare r :: .openParen :: (elements ++ [.closeParen]), v.operands)
  | _ => comparison

namespace Predicate

mutual

/-- The tokens and bound values of a predicate, the first placeholder having the given number. -/
def sqlTokens : Predicate → (first : Nat) → List Token × List Value
  | leaf f r v, first => f.sqlTokens r v first
  | group op ps, first =>
    let (tokens, values) := memberTokens op ps first
    (.openParen :: (tokens ++ [.closeParen]), values)

/-- The tokens and bound values of the members of a group, its operator between them. -/
def memberTokens (op : Combine) : List Predicate → (first : Nat) → List Token × List Value
  | [], _ => ([], [])
  | [p], first => p.sqlTokens first
  | p :: ps, first =>
    let (tokens, values) := p.sqlTokens first
    let (more, moreValues) := memberTokens op ps (first + values.length)
    (tokens ++ .combine op :: more, values ++ moreValues)

end

/-- The SQL condition, its placeholders numbered from `offset + 1` on, and the bound values. -/
def toSql (p : Predicate) (offset : Nat) : String × List Value :=
  let (tokens, values) := p.sqlTokens (offset + 1)
  (render tokens, values)

end Predicate

end SchemaFilter
