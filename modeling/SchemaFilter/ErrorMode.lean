/-!
# Error modes
-/

namespace SchemaFilter

/-- How a compilation reports the failures of rules. -/
inductive ErrorMode where
  /-- It stops at the first failure. -/
  | failFast
  /-- It goes on with the other rules and reports every failure. -/
  | aggregate
  deriving DecidableEq, Repr, Inhabited

namespace ErrorMode

def name : ErrorMode → String
  | failFast => "fail_fast"
  | aggregate => "aggregate"

def ofName? : String → Option ErrorMode
  | "fail_fast" => some failFast
  | "aggregate" => some aggregate
  | _ => none

end ErrorMode

end SchemaFilter
