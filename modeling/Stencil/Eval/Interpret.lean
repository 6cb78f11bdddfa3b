import Stencil.Eval.Block

/-!
# Walking expressions

An expression is evaluated by walking it: literals stand for themselves, paths are read from the
context, and a call runs its operation. The arguments of a method are evaluated from left to right,
the named ones among the others; all other operations decide for themselves. Every block leaves a
frame behind.

The walk is structural on the expression. How a called template is run is a parameter.
-/

namespace Stencil

/-- What an expression is walked with. -/
structure Walk where
  operations : Operations
  mode : Mode
  /-- Runs the body of a template. -/
  run : Mode → TemplateBody → Lazy

/-- Evaluates the arguments of a method from left to right. -/
def evalArguments : List (Operand Lazy) → Arguments → Scope → EvalM Arguments
  | [], done, _ => pure done
  | o :: os, done, s => do
    let v ← o.made s
    evalArguments os (done.push (o.named?.map Prod.fst) v) s

namespace Operation

/-- Evaluates a method. One that is asynchronous fails before its arguments are evaluated when
nothing is awaited. -/
def evalMethod (mode : Mode) (m : Method) (args : List (Operand Lazy)) : Lazy := fun s =>
  if m.isAsync ∧ mode = .sync then throw (.awaitRequired m.name)
  else do m.call (← evalArguments args {} s)

/-- The path of an upward read, which has to be a literal text. -/
def upwardPath : List Expr → Except Error String
  | .literal (.string path) :: _ => .ok path
  | _ => .error (.mismatch .pathExpected)

/-- Evaluates a call of the operation, given its arguments and their evaluations. -/
def eval (walk : Walk) (op : Operation) (args : List (Operand Lazy)) : Lazy :=
  match op with
  | .form f => f.eval (Operand.positional args)
  | .loop kind =>
    match loopParts? (Operand.positional args) with
    | some (selector, body, branch) =>
      let params := match kind with
        | .each => Operand.params args
        | .section => []
      LoopStyle.eval { kind, params, framed := true, atOnce := false } selector body
        (branch.getD fun _ => pure (.string ""))
    | none => fun _ =>
      throw (.misuse (.loopArguments kind.name (Operand.positional args).length))
  | .context =>
    match contextParts? (Operand.positional args) with
    | some (value, body) =>
      evalContext (Operand.params args) true (Operand.values args) value body
    | none => fun _ => throw (.misuse .contextArguments)
  | .template =>
    match Operand.positional args with
    | name :: _ => evalTemplate (walk.run walk.mode) name (Operand.values args)
    | [] => fun _ => throw (.misuse .templateName)
  | .define =>
    match definitionParts? (Operand.split args).positional with
    | some (name, body) =>
      evalDefinition name.made fun templates key =>
        TemplateEntry.interpreted walk.operations templates key body.expr
    | none => fun _ => throw (.misuse .definitionArguments)
  | .lookup => fun s => do return s.lookup (← EvalM.ofExcept (upwardPath (args.map Operand.expr)))
  | .position read => fun s => pure (read.read s.position)
  | .method m => evalMethod walk.mode m args

end Operation

/-- The walk through the arguments of a call. An operation that never has to be awaited is run
without awaiting where none of its arguments holds a call. -/
def Walk.through (walk : Walk) (op : Operation) (args : List Expr) : Walk :=
  if op.isSync && args.all Expr.isLeaf then { walk with mode := .sync } else walk

namespace Expr

mutual

/-- Evaluates an expression. -/
def eval (walk : Walk) : Expr → Lazy
  | .literal value => fun _ => pure value
  | .path p => fun s => pure (p.resolve s.context)
  | .named _ value => eval walk value
  | .call operation args => fun s => do
    let op ← EvalM.ofExcept (walk.operations.get operation)
    let inner := walk.through op args
    op.eval inner (Operand.ofLists args (evals inner args)) s

/-- The evaluations of the expressions of a list. -/
def evals (walk : Walk) : List Expr → List Lazy
  | [] => []
  | e :: es => eval walk e :: evals walk es

end

end Expr

end Stencil
