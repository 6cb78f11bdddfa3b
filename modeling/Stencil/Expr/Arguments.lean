import Stencil.Expr.Basic

/-!
# Argument lists

The arguments of a call are taken apart into positional and named ones. A repeated name keeps its
first place and takes its last value. The name `as` is set aside: it declares the parameters of a
block and is no argument of its own.

Arguments are split in the same way before and after they are analysed, so the split is stated for
anything that may carry a name.
-/

namespace Stencil

/-- An argument list taken apart. -/
structure Split (α : Type) where
  positional : List α := []
  named : Keyed α := []

namespace Split

variable {α β : Type}

/-- Adds one more argument, under its name when it has one. -/
def push (named? : α → Option (String × α)) (split : Split α) (arg : α) : Split α :=
  match named? arg with
  | some (name, value) => { split with named := Keyed.insert name value split.named }
  | none => { split with positional := split.positional ++ [arg] }

/-- Takes an argument list apart. -/
def ofList (named? : α → Option (String × α)) (args : List α) : Split α :=
  args.foldl (push named?) {}

/-- The name under which a block declares its parameters. -/
def paramsName : String := "as"

/-- The named arguments, without the parameters of a block. -/
def values (split : Split α) : Keyed α :=
  split.named.filter fun entry => entry.1 != paramsName

/-- Whether there are named arguments. -/
def hasValues (split : Split α) : Bool :=
  !split.values.isEmpty

end Split

/-- The parameters that a block declares: a literal text is one of them, a literal sequence holds
several. -/
def declaredParams : Option Expr → List String
  | some (.literal (.array _ names)) => names.map Value.keyText
  | some (.literal (.string name)) => [name]
  | _ => []

/-- Takes the arguments of a call apart. -/
def splitArgs (args : List Expr) : Split Expr :=
  Split.ofList Expr.named? args

/-- The parameters that the block with these arguments declares. -/
def blockParams (split : Split Expr) : List String :=
  declaredParams (Keyed.find? Split.paramsName split.named)

/-- Evaluated arguments. -/
structure Arguments where
  positional : List Value := []
  named : Keyed Value := []

namespace Arguments

/-- The positional argument at an index, or `null`. -/
def get (args : Arguments) (index : Nat) : Value :=
  args.positional[index]?.getD .null

/-- The argument under a name, or `null`. -/
def find (args : Arguments) (name : String) : Value :=
  (Keyed.find? name args.named).getD .null

/-- The last positional argument, or `null`. -/
def last (args : Arguments) : Value :=
  args.positional.getLast?.getD .null

/-- The named arguments as a record. -/
def record (args : Arguments) : Value :=
  .object .new args.named

/-- Adds one more argument, under its name when it has one. -/
def push (args : Arguments) (name? : Option String) (value : Value) : Arguments :=
  match name? with
  | some name => { args with named := Keyed.insert name value args.named }
  | none => { args with positional := args.positional ++ [value] }

end Arguments

end Stencil
