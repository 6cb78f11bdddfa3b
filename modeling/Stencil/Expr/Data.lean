import Stencil.Expr.Basic
import Stencil.Data.Reader

/-!
# Expressions as data texts

An expression is stored as a data text in which every node is a record of one field, named for the
kind of the node. A stored expression is read back as a value first. What data texts cannot tell
apart does not survive: maps come back as records, and no number as `null`.
-/

namespace Stencil.Expr

open DataText

/-- A record of one field. -/
def node (kind content : String) : String :=
  bracket "\x7b" "\x7d" [field kind content]

mutual

/-- The data text of an expression. -/
def toData : Expr → String
  | .literal value => node "Literal" value.data
  | .path p =>
    node "Var" (bracket "\x7b" "\x7d"
      [field "segments" (bracket "[" "]" (p.segments.map quote))])
  | .named name value => node "Hash" (bracket "[" "]" [quote name, toData value])
  | .call operation args =>
    node "Op" (bracket "\x7b" "\x7d"
      [field "name" (quote operation), field "args" (bracket "[" "]" (toDataAll args))])

/-- The data texts of the expressions of a list. -/
def toDataAll : List Expr → List String
  | [] => []
  | e :: es => toData e :: toDataAll es

end

mutual

/-- The expression that a stored value spells. -/
def ofValue? : Value → Option Expr
  | .object _ [("Literal", value)] => some (.literal value)
  | .object _ [("Var", .object _ [("segments", .array _ segments)])] =>
    (segments.mapM Value.text?).map fun ss => .path ⟨ss⟩
  | .object _ [("Hash", .array _ [.string name, value])] => (ofValue? value).map (.named name)
  | .object _ [("Op", .object _ [("name", .string operation), ("args", .array _ args)])] =>
    (ofValues? args).map (.call operation)
  | _ => none

/-- The expressions that stored values spell. -/
def ofValues? : List Value → Option (List Expr)
  | [] => some []
  | v :: vs => do
    let e ← ofValue? v
    let es ← ofValues? vs
    return e :: es

end

/-- The expression that a data text spells. -/
def ofData? (text : String) : Option Expr :=
  (Value.ofData? text).bind ofValue?

end Stencil.Expr
