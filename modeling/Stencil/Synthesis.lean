import Stencil.Eval.Run

/-!
# Building fragments

An expression is built into a fragment: its operations are resolved, its arguments are taken apart,
and a call that is deterministic is evaluated once, so that a constant takes its place. A call that
fails while it is being evaluated is left to fail when the fragment is run. A fragment that has to
be awaited carries the name of the first operation that it has to be awaited for.

The build is structural on the expression.
-/

namespace Stencil

/-- Builds optional parts. -/
def buildOptional (part : Option (EvalM Fragment)) : EvalM (Option Fragment) :=
  match part with
  | some part => return some (← part)
  | none => return none

/-- Builds parts from left to right. -/
def buildAll : List (EvalM Fragment) → EvalM (List Fragment)
  | [] => pure []
  | part :: parts => do
    let f ← part
    let fs ← buildAll parts
    return f :: fs

/-- Builds parts under keys from left to right. -/
def buildKeyed {κ : Type} : List (κ × EvalM Fragment) → EvalM (List (κ × Fragment))
  | [] => pure []
  | (key, part) :: parts => do
    let f ← part
    let fs ← buildKeyed parts
    return (key, f) :: fs

/-- Builds a call of the operation, given its arguments and their builds. -/
def Operation.build (operations : Operations) (op : Operation)
    (args : List (Operand (EvalM Fragment))) : EvalM Fragment :=
  match op with
  | .form f => return .form f (← buildAll (Operand.positional args))
  | .loop kind =>
    match loopParts? (Operand.positional args) with
    | some (selector, body, branch) => do
      let params := match kind with
        | .each => Operand.params args
        | .section => []
      let selector ← selector
      let body ← body
      let branch ← buildOptional branch
      return .loop kind params selector body (branch.getD (.const (.string "")))
    | none => throw (.misuse (.loopArguments kind.name (Operand.positional args).length))
  | .context =>
    match contextParts? (Operand.positional args) with
    | some (value, body) => do
      let named ← buildKeyed (Operand.values args)
      let value ← buildOptional value
      return .context (Operand.params args) named value (← body)
    | none => throw (.misuse .contextArguments)
  | .template =>
    match Operand.positional args with
    | name :: _ => do
      let name ← name
      return .template name (← buildKeyed (Operand.values args))
    | [] => throw (.misuse .templateName)
  | .define =>
    match definitionParts? (Operand.split args).positional with
    | some (name, body) => do
      let builtName ← name.made
      let builtBody ← body.made
      return .define builtName builtBody (body.expr.traits operations (← EvalM.templates))
    | none => throw (.misuse .definitionArguments)
  | .lookup => return .lookup (← EvalM.ofExcept (Operation.upwardPath (args.map Operand.expr)))
  | .position read => return .position read
  | .method m =>
    return .method m (← buildKeyed (args.map fun o => (o.named?.map Prod.fst, o.made)))

namespace Engine

/-- The value of an expression that depends on nothing at all and can be tried without awaiting,
when the engine folds such expressions and it does not fail. What it logs and registers stays. The
containers of the value are the same ones wherever it stands in for its expression. -/
def tryFold (engine : Engine) (depth : Nat) (e : Expr) : EvalM (Option Value) := do
  let templates ← EvalM.templates
  if engine.settings.fold && e.isDeterministic engine.operations templates &&
      (e.firstAsync? engine.operations).isNone then
    EvalM.attempt (EvalM.keeping (engine.evalExpr depth .sync e (Scope.root .null)))
  else return none

/-- A fragment that has to be awaited, with the operation that it has to be awaited for. -/
def markAwaiting (engine : Engine) (operation : String) (args : List Expr) (f : Fragment) :
    Fragment :=
  if f.shape = .async then
    .awaiting (((Expr.call operation args).firstAsync? engine.operations).getD operation) f
  else f

mutual

/-- Builds an expression. -/
def build (engine : Engine) (depth : Nat) : Expr → EvalM Fragment
  | .literal value => pure (.const value)
  | .path p => pure (.path p)
  | .named _ value => build engine depth value
  | .call operation args => do
    let op ← EvalM.ofExcept (engine.operations.get operation)
    match ← engine.tryFold depth (.call operation args) with
    | some value => return .const value
    | none =>
      let f ← op.build engine.operations (Operand.ofLists args (builds engine depth args))
      return engine.markAwaiting operation args f

/-- The builds of the expressions of a list. -/
def builds (engine : Engine) (depth : Nat) : List Expr → List (EvalM Fragment)
  | [] => []
  | e :: es => build engine depth e :: builds engine depth es

end

end Engine

end Stencil
