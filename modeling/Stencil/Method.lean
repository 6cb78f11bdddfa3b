import Stencil.Expr.Arguments
import Stencil.Error

/-!
# Methods

A method is a named function of evaluated arguments. It answers with a value or an error, and may
log lines on the way. A method that is asynchronous has to be awaited, and one that is deterministic
always gives the same answer to the same arguments.
-/

namespace Stencil

/-- What a method answers. -/
structure Answer where
  outcome : Except Error Value
  /-- The lines that it logs. -/
  log : List String := []

/-- The answer that is a value. -/
def Answer.ok (value : Value) : Answer :=
  { outcome := .ok value }

/-- A named function of evaluated arguments. -/
structure Method where
  name : String
  isAsync : Bool := false
  deterministic : Bool := false
  run : Arguments → Answer

namespace Method

/-- The method that always answers with one value. -/
def constant (name : String) (value : Value) : Method :=
  { name, run := fun _ => .ok value }

/-- The method that answers with its first argument. -/
def echo (name : String) : Method :=
  { name, run := fun args => .ok (args.get 0) }

/-- The method that complains about the kind of its arguments, whatever they are. -/
def failing (name : String) : Method :=
  { name, run := fun _ => { outcome := .error (.mismatch (.reported (name ++ " failed"))) } }

/-- The method that gives up. -/
def givingUp (name : String) : Method :=
  { name, run := fun _ => { outcome := .error (.misuse (.reported (name ++ " gave up"))) } }

/-- The method that logs its call and answers with its last argument. -/
def recording (name : String) : Method :=
  { name
    run := fun args =>
      { outcome := .ok args.last
        log := [name ++ "(" ++ (Value.array .new args.positional).output ++ ")"] } }

/-- The method that answers with all of its arguments. -/
def collecting (name : String) : Method :=
  { name, run := fun args => .ok (.array .new [.array .new args.positional, args.record]) }

end Method

end Stencil
