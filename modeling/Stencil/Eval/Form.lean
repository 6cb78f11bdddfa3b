import Stencil.Eval.Basic

/-!
# Evaluating on demand

The operations that evaluate their arguments one after the other, as far as they need. They are
written over values evaluated on demand, so that expressions and built fragments share them.

## Main results

* `evalConcat_cons`: joining texts goes from left to right.
-/

namespace Stencil.Form

/-- Appends the texts of the parts to a text, from left to right. -/
def evalConcat (out : String) : List Lazy → Scope → EvalM String
  | [], _ => pure out
  | part :: parts, s => do
    let v ← part s
    evalConcat (out ++ v.output) parts s

/-- The argument after the first truthy condition. A single argument at the end is the answer when
no condition is truthy. -/
def evalChoose : List Lazy → Lazy
  | [] => fun _ => pure .null
  | [otherwise] => otherwise
  | condition :: body :: rest => fun s => do
    let v ← condition s
    if v.truthy then body s else evalChoose rest s

/-- The second argument when the first is not truthy, and the third otherwise. -/
def evalUnless : List Lazy → Lazy
  | condition :: body :: rest => fun s => do
    let v ← condition s
    if v.truthy then
      match rest with
      | otherwise :: _ => otherwise s
      | [] => pure .null
    else body s
  | _ => fun _ => pure .null

/-- The first argument that is not `null`. -/
def evalDefault : List Lazy → Lazy
  | [] => fun _ => pure .null
  | part :: parts => fun s => do
    let v ← part s
    if v.isNull then evalDefault parts s else pure v

/-- The first argument whose truthiness is `stop`, or the last one. -/
def evalUntil (stop : Bool) : List Lazy → Lazy
  | [] => fun _ => pure .null
  | [part] => part
  | part :: parts => fun s => do
    let v ← part s
    if v.truthy = stop then pure v else evalUntil stop parts s

/-- Evaluates a form over its positional arguments. -/
def eval (form : Form) (parts : List Lazy) : Lazy :=
  match form with
  | .concat => fun s => do return .string (← evalConcat "" parts s)
  | .choose => evalChoose parts
  | .unless => evalUnless parts
  | .default => evalDefault parts
  | .all => evalUntil false parts
  | .any => evalUntil true parts

/-- Joining texts goes from left to right. -/
theorem evalConcat_cons (out : String) (part : Lazy) (parts : List Lazy) (s : Scope) :
    evalConcat out (part :: parts) s =
      part s >>= fun v => evalConcat (out ++ v.output) parts s := rfl

end Stencil.Form
