/-!
# Spans

Ranges of a text, counted in bytes of its UTF-8 form.
-/

namespace SchemaFilter

/-- The bytes from `start` up to, not including, `stop`. -/
structure Span where
  start : Nat := 0
  stop : Nat := 0
  deriving DecidableEq, Repr, Inhabited

/-- How many bytes the span has. -/
def Span.length (s : Span) : Nat := s.stop - s.start

/-- Whether the span has no byte. -/
def Span.isEmpty (s : Span) : Bool := s.start == s.stop

/-- How many bytes a text has. -/
def byteLength : List Char → Nat
  | [] => 0
  | c :: cs => c.utf8Size + byteLength cs

@[simp] theorem byteLength_nil : byteLength [] = 0 := rfl

@[simp] theorem byteLength_cons (c : Char) (cs : List Char) :
    byteLength (c :: cs) = c.utf8Size + byteLength cs := rfl

@[simp] theorem byteLength_append (cs ds : List Char) :
    byteLength (cs ++ ds) = byteLength cs + byteLength ds := by
  induction cs with
  | nil => simp
  | cons c cs ih => simp [ih, Nat.add_assoc]

end SchemaFilter
