import Stencil.Path

/-!
# Scopes

An evaluation sees a current context, the place of the innermost loop, and a chain of frames: what
the blocks around it have bound, each with the context that was current outside of the block. Reads
that go upward look at the context first and then at every frame, the innermost first.

## Main results

* `find?_root`: without frames a name is sought in the context alone.
-/

namespace Stencil

/-- The place of an item in a loop. -/
structure Position where
  /-- The number of the item, or its key when the loop runs over a record or a map. -/
  index : Value
  /-- How many items there are, when the loop runs over a sequence. -/
  length : Option Nat := none

namespace Position

/-- Only the index zero is the first one. -/
def isFirst (p : Position) : Bool :=
  p.index.word? == some 0

/-- The last index of a sequence of known length. -/
def isLast (p : Position) : Bool :=
  match p.length, p.index.word? with
  | some (last + 1), some index => index.toInt == last
  | _, _ => false

/-- The length as a value. -/
def lengthValue (p : Position) : Value :=
  p.length.elim .null Value.ofNat

end Position

/-- What a block has bound. -/
structure Frame where
  bindings : Keyed Value := []
  position : Option Position := none
  /-- The context outside of the block. -/
  context : Value

/-- The value that a frame gives a name: a binding, or the place of its loop. -/
def Frame.find? (f : Frame) (name : String) : Option Value :=
  (Keyed.find? name f.bindings).or <|
    f.position.bind fun p =>
      if name = "index" then some p.index
      else if name = "length" then some p.lengthValue
      else none

/-- The value of a name in a frame or in the context outside of its block. -/
def Frame.reach? (f : Frame) (name : String) : Option Value :=
  (f.find? name).or (f.context.get? name)

/-- The bindings of the parameters of a loop: the item, and its index. -/
def blockBindings (params : List String) (item index : Value) : Keyed Value :=
  params.zip [item, index]

/-- What an evaluation sees. -/
structure Scope where
  context : Value
  /-- The frames around, the innermost first. -/
  frames : List Frame := []
  /-- The place in the innermost loop. -/
  position : Option Position := none

namespace Scope

/-- The scope of a whole template. -/
def root (context : Value) : Scope :=
  { context }

/-- The scope inside a block that leaves a frame behind. -/
def enter (s : Scope) (context : Value) (bindings : Keyed Value := [])
    (position : Option Position := none) : Scope :=
  { context, frames := { bindings, position, context := s.context } :: s.frames, position }

/-- The scope inside a block that leaves no frame behind. -/
def rebase (s : Scope) (context : Value) (position : Option Position := none) : Scope :=
  { s with context, position }

/-! ### Upward reads -/

/-- A path without the steps upward. -/
def dropUp : List Char → List Char
  | '.' :: '.' :: '/' :: cs => dropUp cs
  | c :: cs => c :: dropUp cs
  | [] => []

/-- A path without the steps that stay. -/
def dropStay : List Char → List Char
  | '.' :: '/' :: cs => dropStay cs
  | c :: cs => c :: dropStay cs
  | [] => []

/-- The name that an upward path looks for. The steps themselves do not count: every frame is
looked at. -/
def soughtName (path : String) : List Char :=
  match dropStay (dropUp path.toList) with
  | 't' :: 'h' :: 'i' :: 's' :: '.' :: cs => cs
  | cs => cs

/-- The value of a name: that of the context when it is truthy, or else that of the innermost frame
that has one. -/
def find? (s : Scope) (name : String) : Option Value :=
  ((s.context.get? name).bind Value.filterTruthy).or (s.frames.findSome? (·.reach? name))

/-- The value of an upward path. -/
def lookup (s : Scope) (path : String) : Value :=
  let name := soughtName path
  if name = [] ∨ name = ['t', 'h', 'i', 's'] ∨ name = ['.'] then s.context
  else
    match (Text.splitOn (· == '.') name).map String.ofList with
    | [] => .null
    | first :: rest => ((s.find? first).map (·.read rest)).getD .null

/-- Without frames a name has a value only when the context has a truthy one. -/
theorem find?_root (context : Value) (name : String) :
    (root context).find? name = (context.get? name).bind Value.filterTruthy := by
  simp [find?, root]

end Scope

end Stencil
