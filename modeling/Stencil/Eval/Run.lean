import Stencil.Eval.Interpret

/-!
# Running fragments and templates

A fragment is evaluated like the expression it was built from, but leaves frames behind only where
they are looked at, awaits nothing inside of a part that is never awaited, and is refused at once
where it has to be awaited and nothing is.

A template is run with a depth, which bounds how deep calls of templates nest: each call is given
one less.

## Main results

* `runTemplate_zero`: at depth zero no template is run.
-/

namespace Stencil

/-- What a fragment is run with. -/
structure FragmentRun where
  mode : Mode
  /-- Short loops are evaluated at once. -/
  unroll : Bool
  /-- Runs the body of a template. -/
  run : Mode → TemplateBody → Lazy

/-- What the parts of a fragment are run with: nothing is awaited inside of a fragment that is never
awaited. -/
def FragmentRun.within (setup : FragmentRun) (f : Fragment) : FragmentRun :=
  if f.isSync then { setup with mode := .sync } else setup

/-- Evaluates the arguments of a method from left to right. -/
def evalBuiltArguments : List (Option String × Lazy) → Arguments → Scope → EvalM Arguments
  | [], done, _ => pure done
  | (name, value) :: rest, done, s => do
    let v ← value s
    evalBuiltArguments rest (done.push name v) s

namespace Fragment

mutual

/-- Evaluates a fragment. -/
def eval (setup : FragmentRun) : Fragment → Lazy
  | .const value => fun _ => pure value
  | .path p => fun s => pure (p.resolve s.context)
  | .lookup p => fun s => pure (s.lookup p)
  | .position read => fun s => pure (read.read s.position)
  | .form f parts => f.eval (evals (setup.within (.form f parts)) parts)
  | .loop kind params selector body branch =>
    let inner := setup.within (.loop kind params selector body branch)
    LoopStyle.eval
      { kind, params, framed := body.touchesFrames, atOnce := inner.unroll && inner.mode == .sync }
      (eval inner selector) (eval inner body) (eval inner branch)
  | .context params named value body =>
    let inner := setup.within (.context params named value body)
    evalContext params body.touchesFrames (evalNameds inner named)
      (match value with
       | some v => some (eval inner v)
       | none => none)
      (eval inner body)
  | .template name named =>
    let inner := setup.within (.template name named)
    evalTemplate (inner.run inner.mode) (eval inner name) (evalNameds inner named)
  | .define name body traits =>
    evalDefinition (eval (setup.within (.define name body traits)) name) fun _ key =>
      TemplateEntry.defined key body traits
  | .method m args => fun s =>
    let inner := setup.within (.method m args)
    if m.isAsync ∧ inner.mode = .sync then throw (.awaitRequired m.name)
    else do m.call (← evalBuiltArguments (evalArgs inner args) {} s)
  | .awaiting operation inner => fun s =>
    match setup.mode with
    | .sync => throw (.awaitRequired operation)
    | .awaited => eval setup inner s

/-- The evaluations of the fragments of a list. -/
def evals (setup : FragmentRun) : List Fragment → List Lazy
  | [] => []
  | f :: fs => eval setup f :: evals setup fs

/-- The evaluations of named fragments. -/
def evalNameds (setup : FragmentRun) : List (String × Fragment) → List (String × Lazy)
  | [] => []
  | (name, f) :: fs => (name, eval setup f) :: evalNameds setup fs

/-- The evaluations of the arguments of a method. -/
def evalArgs (setup : FragmentRun) : List (Option String × Fragment) → List (Option String × Lazy)
  | [] => []
  | (name, f) :: fs => (name, eval setup f) :: evalArgs setup fs

end

end Fragment

/-- The switches of an engine. -/
structure Settings where
  /-- Deterministic expressions are evaluated when a template is built. -/
  fold : Bool := true
  /-- Short loops are evaluated at once. -/
  unroll : Bool := true
  deriving DecidableEq, Repr, Inhabited

/-- What stays the same while templates are built and run: the operations that are known, and the
switches. -/
structure Engine where
  operations : Operations := Operations.builtin
  settings : Settings := {}

namespace Engine

/-- Runs the body of a template, with calls of templates nested at most `depth` deep. A body that
never awaits is run without awaiting, as was settled when it was stored. -/
def runTemplate (engine : Engine) : Nat → Mode → TemplateBody → Lazy
  | 0, _, _ => fun _ => EvalM.tooDeep
  | depth + 1, mode, .compiled fragment =>
    fragment.eval { mode, unroll := engine.settings.unroll, run := engine.runTemplate depth }
  | depth + 1, mode, .interpreted e isSync =>
    let mode := if isSync then .sync else mode
    e.eval { operations := engine.operations, mode, run := engine.runTemplate depth }

/-- Evaluates an expression by walking it. -/
def evalExpr (engine : Engine) (depth : Nat) (mode : Mode) (e : Expr) : Lazy :=
  e.eval { operations := engine.operations, mode, run := engine.runTemplate depth }

/-- Evaluates a fragment. -/
def evalFragment (engine : Engine) (depth : Nat) (mode : Mode) (f : Fragment) : Lazy :=
  f.eval { mode, unroll := engine.settings.unroll, run := engine.runTemplate depth }

/-- At depth zero no template is run. -/
theorem runTemplate_zero (engine : Engine) (mode : Mode) (body : TemplateBody) (s : Scope) :
    engine.runTemplate 0 mode body s = EvalM.tooDeep := rfl

end Engine

end Stencil
