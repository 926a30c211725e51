import SchemaFilter.Text.Span

/-!
# Ordered-choice grammars

Grammars in which a choice tries its alternatives in order and a repetition takes as much as it
can, both without going back. An expression is matched against the text at a cursor; a match moves
the cursor and yields one tree per named part that was read.

What may stand between the parts of a sequence is a function on cursors, the *skip*: it is the
identity where nothing may, and `compact` and `token` parts are read so.

Main definitions:

* `Expr`: grammar expressions. A grammar without recursion is one expression, its named parts
  nested in one another;
* `Expr.match?`: the match at a cursor, total by recursion on the expression; a repetition is
  bounded by the length of the text, since every round has to consume some of it;
* `Node.preorder`: the parts of a tree in the order in which they begin.
-/

namespace SchemaFilter.Grammar

/-! ## Cursors -/

/-- A place in a text: how many bytes stand before it, and the characters after it. -/
structure Cursor where
  offset : Nat
  rest : List Char
  deriving DecidableEq, Repr

namespace Cursor

/-- The start of a text. -/
def start (text : List Char) : Cursor := ⟨0, text⟩

/-- The cursor after the next character, if that is an accepted one. -/
def char? (accepts : Char → Bool) (c : Cursor) : Option Cursor :=
  match c.rest with
  | [] => none
  | ch :: rest => if accepts ch then some ⟨c.offset + ch.utf8Size, rest⟩ else none

/-- The cursor after a word, if that comes next. -/
def word? : List Char → Cursor → Option Cursor
  | [], c => some c
  | ch :: word, c => (c.char? (· == ch)).bind (word? word)

/-- The characters between two cursors of one text. -/
def textTo (c d : Cursor) : List Char := c.rest.take (c.rest.length - d.rest.length)

end Cursor

/-! ## Expressions and trees -/

/-- A grammar expression over the names `σ` of its parts. -/
inductive Expr (σ : Type) where
  /-- The given characters. -/
  | word (text : List Char)
  /-- One accepted character. -/
  | char (accepts : Char → Bool)
  /-- The end of the text. -/
  | atEnd
  /-- One after the other, with a skip between them. -/
  | seq (first second : Expr σ)
  /-- The first, or else the second. -/
  | choice (first second : Expr σ)
  /-- The body or nothing. -/
  | optional (body : Expr σ)
  /-- The body as often as it matches, with a skip between the repetitions. -/
  | many (body : Expr σ)
  /-- Nothing, where the body does not match. -/
  | notAhead (body : Expr σ)
  /-- A named part. -/
  | phrase (symbol : σ) (body : Expr σ)
  /-- A named part in which nothing is skipped. -/
  | compact (symbol : σ) (body : Expr σ)
  /-- A named part in which nothing is skipped, and which has no parts of its own. -/
  | token (symbol : σ) (body : Expr σ)

namespace Expr

/-- The parts one after the other. -/
def sequence {σ : Type} : List (Expr σ) → Expr σ
  | [] => word []
  | [e] => e
  | e :: es => seq e (sequence es)

/-- The first part that matches. -/
def firstOf {σ : Type} : List (Expr σ) → Expr σ
  | [] => char fun _ => false
  | [e] => e
  | e :: es => choice e (firstOf es)

/-- The body once or more. -/
def several {σ : Type} (body : Expr σ) : Expr σ := seq body (many body)

end Expr

/-- A part that was read: its name, where it stands, its text and the parts inside it. -/
structure Node (σ : Type) where
  symbol : σ
  span : Span
  text : List Char
  children : List (Node σ)

/-! ## Matching -/

/-- A match: the cursor after it, and the parts that were read. -/
abbrev Match (σ : Type) := Cursor × List (Node σ)

/-- The part named `symbol` between two cursors. -/
def Node.between {σ : Type} (symbol : σ) (c d : Cursor) (children : List (Node σ)) : Node σ :=
  ⟨symbol, ⟨c.offset, d.offset⟩, c.textTo d, children⟩

/-- Repeats a step as long as it matches and moves the cursor forward, at most `rounds` times. -/
def repeatStep {σ : Type} (step : Cursor → Option (Match σ)) : (rounds : Nat) → Cursor → Match σ
  | 0, c => (c, [])
  | rounds + 1, c =>
    match step c with
    | none => (c, [])
    | some (d, ns) =>
      if d.rest.length < c.rest.length then
        let (e, more) := repeatStep step rounds d
        (e, ns ++ more)
      else (c, [])

/-- The match of an expression at a cursor, if there is one. -/
def Expr.match? {σ : Type} : Expr σ → (skip : Cursor → Cursor) → Cursor → Option (Match σ)
  | word text, _, c => (c.word? text).map (·, [])
  | char accepts, _, c => (c.char? accepts).map (·, [])
  | atEnd, _, c => if c.rest.isEmpty then some (c, []) else none
  | seq first second, skip, c =>
    match first.match? skip c with
    | none => none
    | some (d, ns) =>
      match second.match? skip (skip d) with
      | none => none
      | some (e, more) => some (e, ns ++ more)
  | choice first second, skip, c =>
    match first.match? skip c with
    | none => second.match? skip c
    | found => found
  | optional body, skip, c =>
    match body.match? skip c with
    | none => some (c, [])
    | found => found
  | many body, skip, c =>
    match body.match? skip c with
    | none => some (c, [])
    | some (d, ns) =>
      let (e, more) := repeatStep (fun c => body.match? skip (skip c)) d.rest.length d
      some (e, ns ++ more)
  | notAhead body, skip, c =>
    match body.match? skip c with
    | none => some (c, [])
    | some _ => none
  | phrase symbol body, skip, c =>
    (body.match? skip c).map fun (d, ns) => (d, [.between symbol c d ns])
  | compact symbol body, _, c =>
    (body.match? id c).map fun (d, ns) => (d, [.between symbol c d ns])
  | token symbol body, _, c =>
    (body.match? id c).map fun (d, _) => (d, [.between symbol c d []])

/-! ## Reading trees -/

mutual

/-- The names and spans of a part and of all parts inside it, each before its own parts. -/
def Node.preorder {σ : Type} : Node σ → List (σ × Span)
  | ⟨symbol, span, _, children⟩ => (symbol, span) :: preorders children

/-- The names and spans of several parts and of all parts inside them. -/
def preorders {σ : Type} : List (Node σ) → List (σ × Span)
  | [] => []
  | n :: ns => n.preorder ++ preorders ns

end

/-- The text of a part. -/
def Node.string {σ : Type} (n : Node σ) : String := String.ofList n.text

end SchemaFilter.Grammar
