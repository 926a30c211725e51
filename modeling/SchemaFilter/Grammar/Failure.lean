import SchemaFilter.Grammar.Basic

/-!
# Where a text leaves a grammar

When an expression does not match, the place to show is the furthest one at which a named part was
tried and did not match: everything before it was understood by some alternative. Characters and
words count only through the named part that asks for them, and the inside of a token does not
count at all.
-/

namespace SchemaFilter.Grammar

/-- The greatest failure over the rounds of `repeatStep`. -/
def repeatFailure {σ : Type} (step : Cursor → Option (Match σ)) (failure : Cursor → Nat) :
    (rounds : Nat) → Cursor → Nat
  | 0, c => failure c
  | rounds + 1, c =>
    match step c with
    | none => failure c
    | some (d, _) =>
      if d.rest.length < c.rest.length then max (failure c) (repeatFailure step failure rounds d)
      else failure c

/-- The greatest offset at which a named part was tried in vain while the expression was matched at
    a cursor, zero if there was none. -/
def Expr.failure {σ : Type} : Expr σ → (skip : Cursor → Cursor) → Cursor → Nat
  | word _, _, _ | char _, _, _ | atEnd, _, _ | notAhead _, _, _ => 0
  | seq first second, skip, c =>
    match first.match? skip c with
    | none => first.failure skip c
    | some (d, _) => max (first.failure skip c) (second.failure skip (skip d))
  | choice first second, skip, c =>
    match first.match? skip c with
    | none => max (first.failure skip c) (second.failure skip c)
    | some _ => first.failure skip c
  | optional body, skip, c => body.failure skip c
  | many body, skip, c =>
    match body.match? skip c with
    | none => body.failure skip c
    | some (d, _) =>
      max (body.failure skip c)
        (repeatFailure (fun c => body.match? skip (skip c)) (fun c => body.failure skip (skip c))
          d.rest.length d)
  | phrase _ body, skip, c =>
    match body.match? skip c with
    | none => max c.offset (body.failure skip c)
    | some _ => body.failure skip c
  | compact _ body, _, c =>
    match body.match? id c with
    | none => max c.offset (body.failure id c)
    | some _ => body.failure id c
  | token _ body, _, c => if (body.match? id c).isSome then 0 else c.offset

end SchemaFilter.Grammar
