import Stencil.Keyed
import Stencil.Number.Exact

/-!
# Values

Templates are rendered against values: the scalars, sequences, records whose fields keep their
order, and maps, whose keys are values themselves. This module holds the type, its simplest views
and truthiness.

Sequences, records and maps carry a mark, because a container is the same as itself even when it
holds what equals nothing. Only equality looks at marks.
-/

namespace Stencil

/-- What tells one container from another that holds the same. -/
inductive Mark where
  /-- The container has just been made, so that no other can be the same. -/
  | new
  /-- The container was there before anything was evaluated, as the one of this number. -/
  | outer (number : Nat)
  /-- The container was made in a run of the evaluation, as the one of this number. -/
  | made (run number : Nat)
  deriving DecidableEq, Repr, Inhabited

/-- Whether two containers with these marks are one and the same. -/
def Mark.same (m n : Mark) : Bool :=
  m != .new && m == n

/-- The data that templates are rendered against. -/
inductive Value where
  | null
  | bool (b : Bool)
  | int (n : Int64)
  | float (x : Float)
  | string (text : String)
  | array (mark : Mark) (items : List Value)
  /-- A record. Its fields keep the order in which they were first written. -/
  | object (mark : Mark) (fields : List (String × Value))
  /-- Pairs of a key and a value, whose keys may repeat. -/
  | map (mark : Mark) (entries : List (Value × Value))
  deriving Inhabited

namespace Value

/-- A count as a value. -/
def ofNat (n : Nat) : Value :=
  .int (Int64.ofNat n)

/-- The number as a value: an integer when a word holds it. -/
def ofFloat (x : Float) : Value :=
  match Number.toWord? x with
  | some n => .int n
  | none => .float x

/-- Whether the value is `null`. -/
def isNull : Value → Bool
  | .null => true
  | _ => false

/-- Whether the value is a number. -/
def isNumber : Value → Bool
  | .int _ | .float _ => true
  | _ => false

/-- Whether the value is a boolean, a number or a text. -/
def isScalar : Value → Bool
  | .bool _ | .int _ | .float _ | .string _ => true
  | _ => false

/-- The text of a text. -/
def text? : Value → Option String
  | .string text => some text
  | _ => none

/-- The boolean of a boolean. -/
def bool? : Value → Option Bool
  | .bool b => some b
  | _ => none

/-- The word that a number is, when it is integral and in range. -/
def word? : Value → Option Int64
  | .int n => some n
  | .float x => Number.toWord? x
  | _ => none

/-- The items of a sequence. -/
def items? : Value → Option (List Value)
  | .array _ items => some items
  | _ => none

/-- The fields of a record. -/
def fields? : Value → Option (Keyed Value)
  | .object _ fields => some fields
  | _ => none

/-- The entries of a map. -/
def entries? : Value → Option (List (Value × Value))
  | .map _ entries => some entries
  | _ => none

/-- The name of the kind of a value. -/
def typeName : Value → String
  | .bool _ => "boolean"
  | .int _ | .float _ => "number"
  | .string _ => "string"
  | .null | .array _ _ | .object _ _ | .map _ _ => "object"

/-- What a condition makes of a value. Zero, no number, and whatever is empty count as false, but
a record always counts as true. -/
def truthy : Value → Bool
  | .null => false
  | .bool b => b
  | .int n => n != 0
  | .float x => x != 0 && !x.isNaN
  | .string text => !text.isEmpty
  | .array _ items => !items.isEmpty
  | .object _ _ => true
  | .map _ entries => !entries.isEmpty

/-- What the value is good for in a condition: only truthy values remain. -/
def filterTruthy (v : Value) : Option Value :=
  if v.truthy then some v else none

end Value

end Stencil
