import Stencil.Source.Node
import Stencil.Source.Folding
import Stencil.Expr.Basic

/-!
# The expression of a template text

Nodes are turned into calls of operations. A body is the concatenation of its parts; a written value
is escaped unless it was asked for as it is; a block is a call whose last arguments are its body and
its else branch. Names lead to the current context, but upward paths and the parameters of a block
are looked up in the scopes around it, and a name that is an operation as well calls it when the
context has no value for it.

## Main results

* `concat_singleton`: a body of one part is the part.
-/

namespace Stencil

/-- How a template text is read. -/
structure Options where
  /-- Values are written as they are. -/
  noEscape : Bool := false
  /-- All names are looked up in the scopes around a block too. -/
  recurse : Bool := false
  deriving DecidableEq, Repr, Inhabited

namespace Source

/-- What the meaning of a name depends on. -/
structure Naming where
  options : Options
  /-- The names of operations. -/
  isOperation : String → Bool
  /-- The parameters of the blocks around the name. -/
  params : List String := []

/-- The naming inside a block with further parameters. -/
def Naming.within (naming : Naming) (params : List String) : Naming :=
  { naming with params := naming.params ++ params }

/-! ### Names -/

/-- Whether a text starts with a word. -/
def startsWith (word text : String) : Bool :=
  word.toList.isPrefixOf text.toList

/-- What follows `this` and a separator. -/
def afterThis? (text : String) : Option String :=
  match text.toList with
  | 't' :: 'h' :: 'i' :: 's' :: c :: rest =>
    if Path.isSeparator c then some (String.ofList rest) else none
  | _ => none

/-- The first segment of a path as it is written. -/
def firstSegment (text : String) : String :=
  String.ofList (text.toList.takeWhile fun c => !Path.isSeparator c)

/-- The read of a name in all scopes. -/
def lookupExpr (name : String) : Expr :=
  .call "rvar" [.text name]

/-- The expression of a name. -/
def Naming.pathExpr (naming : Naming) (text : String) : Expr :=
  if text = "this" ∨ text = "." then .path Path.this
  else if startsWith "@" text then .call text []
  else
    match afterThis? text with
    | some rest => .path (Path.ofText rest)
    | none =>
      let upward := startsWith "../" text || startsWith "./" text
      let isParam := naming.params.contains (firstSegment text)
      let base :=
        if upward || isParam || naming.options.recurse then lookupExpr text
        else .path (Path.ofText text)
      if firstSegment text = text ∧ !isParam ∧ naming.isOperation text then
        .call "default" [base, .call text []]
      else base

/-! ### Terms -/

mutual

/-- The expression of a term. A group in parentheses is a call when it starts with a name. -/
def termExpr (naming : Naming) : Term → Expr
  | .literal value => .literal value
  | .path text => naming.pathExpr text
  | .group (.plain (.path name) :: args) => .call name (argExprs naming args)
  | .group (.plain term :: _) => termExpr naming term
  | .group _ => .literal .null

/-- The expression of a parameter. -/
def argExpr (naming : Naming) : Param → Expr
  | .plain term => termExpr naming term
  | .named name term => .named name (termExpr naming term)
  | .block names => .named "as" (.literal (.array .new (names.map .string)))

/-- The expressions of parameters. -/
def argExprs (naming : Naming) : List Param → List Expr
  | [] => []
  | param :: params => argExpr naming param :: argExprs naming params

end

/-- The expression of the name of a called template. A bare word is the name itself. -/
def templateNameExpr (naming : Naming) : Term → Expr
  | .path name => .text name
  | term => termExpr naming term

/-! ### Bodies -/

/-- Puts a part before the parts of a body. Texts that meet are joined. -/
def addPart : Expr → List Expr → List Expr
  | .literal (.string a), .literal (.string b) :: parts => .literal (.string (a ++ b)) :: parts
  | part, parts => part :: parts

/-- The concatenation of the parts of a body. -/
def concat (parts : List Expr) : Expr :=
  match parts.foldr addPart [] with
  | [] => .text ""
  | [part] => part
  | parts => .call "cat" parts

/-- A written value. -/
def written (naming : Naming) (escaped : Bool) (value : Expr) : Expr :=
  if escaped && !naming.options.noEscape then .call "escape" [value] else value

/-- The parameters that a block declares. Of several declarations the first one counts. -/
def declared : List Param → List String
  | [] => []
  | .block names :: _ => names
  | _ :: params => declared params

/-- The last arguments of a conditional. Conditions that follow one another are one call. -/
def conditionalBranch (head : String) : Option Expr → List Expr
  | some (.call operation args) =>
    if head = "if" ∧ operation = "if" then args else [.call operation args]
  | some branch => [branch]
  | none => []

/-- The expression of a block, given those of its body and its else branch. -/
def blockExpr (naming : Naming) (inverted : Bool) (head : String) (args : List Param)
    (body : Expr) (branch : Option Expr) : Expr :=
  if inverted then .call "unless" ([naming.pathExpr head, body] ++ branch.toList)
  else if head = "if" ∨ head = "unless" then
    .call head ((argExprs naming (args.take 1)) ++ [body] ++ conditionalBranch head branch)
  else if args.isEmpty && !naming.isOperation head && head != "with" && head != "inline" then
    .call "section" ([naming.pathExpr head, body] ++ branch.toList)
  else .call head (argExprs naming args ++ [body] ++ branch.toList)

mutual

/-- The expression of a node. The parameters of a block are known in its body alone. -/
def nodeExpr (naming : Naming) : Node → Expr
  | .text text => .text text
  | .lineBreak => .text "\n"
  | .value escaped term => written naming escaped (termExpr naming term)
  | .helper escaped name args => written naming escaped (.call name (argExprs naming args))
  | .template name args =>
    .call "partial"
      (templateNameExpr naming name ::
        args.map fun (key, term) => .named key (termExpr naming term))
  | .block inverted head args body branch =>
    blockExpr naming inverted head args
      (concat (nodeExprs (naming.within (declared args)) body))
      (match branch with
       | some nodes => some (concat (nodeExprs naming nodes))
       | none => none)

/-- The expressions of the nodes of a body. -/
def nodeExprs (naming : Naming) : List Node → List Expr
  | [] => []
  | node :: nodes => nodeExpr naming node :: nodeExprs naming nodes

end

/-! ### Template texts -/

/-- The expression of a template text, as it is. -/
def read (source : String) (options : Options) (isOperation : String → Bool) :
    Except SyntaxError Expr :=
  let nodes := do Node.ofTokens (← Token.ofText source)
  match nodes with
  | .ok nodes => .ok (concat (nodeExprs { options, isOperation } nodes))
  | .error fault => .error { fault with source }

/-- The expression of a template text whose lines are folded first. -/
def readFolded (text : String) (options : Options) (isOperation : String → Bool) :
    Except SyntaxError Expr :=
  read (fold text) options isOperation

/-! ### Small bodies -/

/-- One part alone is not concatenated. -/
theorem concat_singleton (part : Expr) : concat [part] = part := by
  cases part with
  | literal v => cases v <;> rfl
  | _ => rfl

end Source

end Stencil
