import Stencil.Expr.Basic
import Stencil.Text.Quoted

/-!
# Expressions as text

An expression is shown with its calls in parentheses, its named arguments with an equals sign, and
its literal texts in quotes.
-/

namespace Stencil.Expr

/-- A literal as it is shown. -/
def literalText : Value → String
  | .string text => Text.quote text
  | .null => "null"
  | value => value.output

mutual

/-- An expression as it is shown. -/
def toText : Expr → String
  | .literal value => literalText value
  | .path p => p.text
  | .named name value => name ++ "=" ++ toText value
  | .call operation args => "(" ++ " ".intercalate (operation :: toTexts args) ++ ")"

/-- The expressions of a list as they are shown. -/
def toTexts : List Expr → List String
  | [] => []
  | e :: es => toText e :: toTexts es

end

end Stencil.Expr
