import Stencil.Path
import Stencil.Value.Compare

/-!
# Expressions

A template is read into one expression: literals, paths, and calls of named operations on argument
lists, in which an argument may carry a name. Blocks and text are calls too, so that the operations
alone say what a template means.
-/

namespace Stencil

/-- The meaning of a template text. -/
inductive Expr where
  | literal (value : Value)
  | path (path : Path)
  /-- An argument with a name. It means something in an argument list only, and elsewhere stands
  for its value. -/
  | named (name : String) (value : Expr)
  | call (operation : String) (args : List Expr)
  deriving Inhabited

namespace Expr

/-- A literal text. -/
def text (s : String) : Expr :=
  .literal (.string s)

/-- The value of a literal. -/
def literal? : Expr → Option Value
  | .literal value => some value
  | _ => none

/-- The name and the value of a named argument. -/
def named? : Expr → Option (String × Expr)
  | .named name value => some (name, value)
  | _ => none

/-- The name of the operation that an expression calls. -/
def operation? : Expr → Option String
  | .call operation _ => some operation
  | _ => none

/-- Whether an expression holds no call. -/
def isLeaf : Expr → Bool
  | .literal _ | .path _ => true
  | .named _ value => value.isLeaf
  | .call _ _ => false

mutual

/-- The calls in an expression, the outer ones first: the name and the number of arguments. -/
def calls : Expr → List (String × Nat)
  | .literal _ | .path _ => []
  | .named _ value => calls value
  | .call operation args => (operation, args.length) :: callsIn args

/-- The calls in the expressions of a list. -/
def callsIn : List Expr → List (String × Nat)
  | [] => []
  | e :: es => calls e ++ callsIn es

end

mutual

/-- Equality of expressions; literals are compared strictly. -/
def equal : Expr → Expr → Bool
  | .literal a, .literal b => a.equal b
  | .path a, .path b => a == b
  | .named n a, .named m b => n == m && equal a b
  | .call n as, .call m bs => n == m && equalAll as bs
  | _, _ => false

/-- Equality of lists of expressions. -/
def equalAll : List Expr → List Expr → Bool
  | [], [] => true
  | a :: as, b :: bs => equal a b && equalAll as bs
  | _, _ => false

end

end Expr

end Stencil
