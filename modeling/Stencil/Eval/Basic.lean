import Stencil.Analysis
import Stencil.Value.Marks

/-!
# Evaluations

An evaluation may log lines, may register templates and may fail; what it has logged and registered
by then stays. Calls of templates may nest without bound, so an evaluation is given a depth, and has
no outcome when its calls nest deeper.

An evaluation numbers the containers that it makes. What is made while a template is rendered is
gone afterwards, so every rendering counts from the start. What a built template keeps is numbered
in a run of its own, which no other evaluation shares, and so is what is read from a document.

## Main results

* `run_tooDeep`: an evaluation that nests too deep has no outcome.
-/

namespace Stencil

/-- Whether an evaluation may await. -/
inductive Mode where
  | sync
  | awaited
  deriving DecidableEq, Repr

/-- What an evaluation changes. -/
structure Effects where
  templates : Registry := []
  /-- The logged lines, the earliest first. -/
  log : List String := []
  /-- The run that containers are made in, which is zero while a template is rendered. -/
  run : Nat := 0
  /-- How many containers the run has made. -/
  made : Nat := 0
  /-- How many other runs there have been, which have made what built templates keep and what was
  read from documents. -/
  kept : Nat := 0

/-- A computation with effects, which may fail, and which has no outcome when calls of templates
nest too deep. -/
abbrev EvalM := ExceptT Error (StateT Effects Option)

/-- A value that is evaluated on demand. -/
abbrev Lazy := Scope → EvalM Value

namespace EvalM

variable {α : Type}

/-- No outcome. -/
def tooDeep : EvalM α :=
  fun _ => none

/-- Fails with the error of a result. -/
def ofExcept (result : Except Error α) : EvalM α :=
  fun effects => some (result, effects)

/-- The registered templates. -/
def templates : EvalM Registry :=
  fun effects => some (.ok effects.templates, effects)

/-- Replaces the registered templates. -/
def setTemplates (templates : Registry) : EvalM Unit :=
  fun effects => some (.ok (), { effects with templates })

/-- Logs lines. -/
def logLines (lines : List String) : EvalM Unit :=
  fun effects => some (.ok (), { effects with log := effects.log ++ lines })

/-- A value, with its new containers marked. -/
def settle (v : Value) : EvalM Value :=
  fun effects =>
    let (v, made) := v.marked effects.run effects.made
    some (.ok v, { effects with made })

/-- Evaluates what does not belong to the run that is going on, such as what a built template keeps,
in a run of its own. -/
def keeping (m : EvalM α) : EvalM α :=
  fun effects =>
    let kept := effects.kept + 1
    (m { effects with run := kept, made := 0, kept }).map fun (result, after) =>
      (result, { after with run := effects.run, made := effects.made })

/-- The value of a computation, unless it fails. Its effects stay in either case. -/
def attempt (m : EvalM α) : EvalM (Option α) :=
  fun effects => (m effects).map fun
    | (.ok a, effects) => (.ok (some a), effects)
    | (.error _, effects) => (.ok none, effects)

/-- An evaluation that nests too deep has no outcome. -/
theorem run_tooDeep (effects : Effects) : (tooDeep : EvalM α) effects = none := rfl

end EvalM

/-- Runs a method. -/
def Method.call (m : Method) (args : Arguments) : EvalM Value := do
  let answer := m.run args
  EvalM.logLines answer.log
  EvalM.settle (← EvalM.ofExcept answer.outcome)

end Stencil
