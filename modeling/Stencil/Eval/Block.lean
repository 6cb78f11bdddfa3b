import Stencil.Eval.Form

/-!
# Blocks

Loops, blocks with a context of their own, and calls and definitions of templates. They are written
over values evaluated on demand, so that expressions and built fragments share them. What differs
between the two is how much they have to leave behind: a body that never looks at the frames around
it can do without one.
-/

namespace Stencil

/-! ### Loops -/

/-- What a loop over a value runs over: the place and the value of each item. Sequences, texts with
their characters, maps and records have items, and only sequences have a length. -/
def Value.items : Value → List (Position × Value)
  | .array _ items =>
    items.mapIdx fun i item => ({ index := .ofNat i, length := some items.length }, item)
  | .string text =>
    text.toList.mapIdx fun i c => ({ index := .ofNat i }, .string (String.singleton c))
  | .map _ entries => entries.map fun (key, item) => ({ index := key }, item)
  | .object _ fields => fields.map fun (name, item) => ({ index := .string name }, item)
  | _ => []

/-- How a loop is run. -/
structure LoopStyle where
  kind : LoopKind
  /-- The parameters that each round binds. -/
  params : List String
  /-- Each round leaves a frame behind. -/
  framed : Bool
  /-- Short sequences are evaluated at once, and their texts joined afterwards. -/
  atOnce : Bool

/-- The scope of one round. -/
def LoopStyle.round (style : LoopStyle) (s : Scope) (place : Position) (item : Value) : Scope :=
  if style.framed then s.enter item (blockBindings style.params item place.index) (some place)
  else s.rebase item (some place)

/-- Evaluates a body in one scope after the other and appends the texts. -/
def roundsFrom (body : Lazy) (out : String) : List Scope → EvalM String
  | [] => pure out
  | s :: scopes => do
    let v ← body s
    roundsFrom body (out ++ v.output) scopes

/-- Evaluates a body in all scopes. -/
def roundsAtOnce (body : Lazy) : List Scope → EvalM (List Value)
  | [] => pure []
  | s :: scopes => do
    let v ← body s
    let vs ← roundsAtOnce body scopes
    return v :: vs

/-- The longest sequence that is evaluated at once. -/
def shortLength : Nat := 4

/-- The text of all rounds of a loop over a value, when there are any. -/
def LoopStyle.run (style : LoopStyle) (body : Lazy) (source : Value) (s : Scope) :
    EvalM (Option String) :=
  match source.items with
  | [] => pure none
  | items => do
    let scopes := items.map fun (place, item) => style.round s place item
    let short := source.items?.any fun items => items.length ≤ shortLength
    if style.atOnce && !style.framed && short then
      let vs ← roundsAtOnce body scopes
      return some (vs.foldl (fun out v => out ++ v.output) "")
    else return some (← roundsFrom body "" scopes)

/-- Evaluates the body of a section whose value is no sequence: `true` leaves the context as it is,
and any other value becomes the context. -/
def wholeValue (body : Lazy) (source : Value) (s : Scope) : EvalM Value :=
  match source with
  | .bool true => body s
  | _ => body (s.enter source)

/-- Evaluates a loop. Its else branch is for values that are not truthy or have no items. -/
def LoopStyle.eval (style : LoopStyle) (selector body branch : Lazy) : Lazy := fun s => do
  let source ← selector s
  if !source.truthy then branch s
  else if style.kind = .section ∧ source.items?.isNone then wholeValue body source s
  else
    match ← style.run body source s with
    | some text => return .string text
    | none => branch s

/-! ### Contexts -/

/-- Evaluates named values from left to right. -/
def evalNamed : List (String × Lazy) → Scope → EvalM (Keyed Value)
  | [], _ => pure []
  | (name, value) :: rest, s => do
    let v ← value s
    let vs ← evalNamed rest s
    return (name, v) :: vs

/-- Evaluates a value if there is one. -/
def evalOptional (value : Option Lazy) (s : Scope) : EvalM (Option Value) :=
  match value with
  | some value => return some (← value s)
  | none => return none

/-- The context of a block, given its named arguments and its value, and whether it replaces the
context around the block. The fields of a record win over named arguments; any other value yields
to them. -/
def newContext (named : Keyed Value) (value : Option Value) : Value × Bool :=
  match named, value with
  | [], none => (.object .new [], true)
  | [], some value => (value, false)
  | named, some (.object _ fields) => (.object .new (Keyed.extend named fields), true)
  | named, _ => (.object .new named, true)

/-- Evaluates a body in a context of its own. A frame is left behind when the context replaces the
one around the block and `framed` asks for it, and whenever there is a parameter to bind. -/
def evalContext (params : List String) (framed : Bool) (named : List (String × Lazy))
    (value : Option Lazy) (body : Lazy) : Lazy := fun s => do
  let named ← evalNamed named s
  let value ← evalOptional value s
  let (context, replaces) := newContext named value
  let context ← EvalM.settle context
  if (replaces && framed) || !params.isEmpty then
    body (s.enter context (params.zip [context]))
  else body (s.rebase context)

/-! ### Templates -/

/-- The context of a called template: the argument under the empty name, or all named arguments
together, or the context of the caller. -/
def calledContext (named : Keyed Value) (caller : Value) : Value :=
  match Keyed.find? "" named with
  | some context => context
  | none => if named.isEmpty then caller else .object .new named

/-- Calls the template of a name. The name is looked up before the arguments are evaluated. Without
arguments the context is that of the caller, and no container is made. -/
def evalTemplate (call : TemplateBody → Lazy) (name : Lazy) (named : List (String × Lazy)) : Lazy :=
  fun s => do
    let key := (← name s).keyText
    let entry ← EvalM.ofExcept ((← EvalM.templates).get key)
    let values ← evalNamed named s
    let context ← if values.isEmpty then pure s.context
      else EvalM.settle (calledContext values s.context)
    call entry.body (if entry.capturesScope then s.enter context else s.rebase context)

/-- Registers a template under a name, unless the name is taken. -/
def evalDefinition (name : Lazy) (entry : Registry → String → TemplateEntry) : Lazy := fun s => do
  let key := (← name s).keyText
  let templates ← EvalM.templates
  EvalM.setTemplates (templates.define (entry templates key))
  return .string ""

end Stencil
