import Stencil.Registry

/-!
# What an expression can be known to do

Before an expression is run it can be asked which of its operations are unknown or have to be
awaited, whether it reads the frames around it, and whether it is deterministic. An expression is
deterministic when its value depends on nothing that is known only later. Paths depend on the
context, so the question is asked with the context known or unknown; the body of a loop or of a
context block has a known context as soon as what it runs over is deterministic.

## Main results

* `firstOperation?_eq_none`: no operation is found exactly when each is known and none is sought.
-/

namespace Stencil

/-- Something made of an argument, beside the argument itself. -/
structure Operand (α : Type) where
  expr : Expr
  made : α

namespace Operand

variable {α : Type}

/-- The name of a named argument, and what has been made of its value. -/
def named? (o : Operand α) : Option (String × Operand α) :=
  match o.expr with
  | .named name value => some (name, ⟨value, o.made⟩)
  | _ => none

/-- Arguments and what has been made of each of them. -/
def ofLists (args : List Expr) (made : List α) : List (Operand α) :=
  args.zipWith Operand.mk made

/-- Takes an argument list apart. -/
def split (operands : List (Operand α)) : Split (Operand α) :=
  Split.ofList named? operands

/-- What has been made of the positional arguments. -/
def positional (operands : List (Operand α)) : List α :=
  (split operands).positional.map made

/-- What has been made of the named arguments, without the parameters of a block. -/
def values (operands : List (Operand α)) : Keyed α :=
  (split operands).values.map fun (name, o) => (name, o.made)

/-- The parameters that a block with these arguments declares. -/
def params (operands : List (Operand α)) : List String :=
  declaredParams ((Keyed.find? Split.paramsName (split operands).named).map expr)

end Operand

/-- The selector, the body and the else branch of a loop. -/
def loopParts? {α : Type} : List α → Option (α × α × Option α)
  | [selector, body] => some (selector, body, none)
  | [selector, body, branch] => some (selector, body, some branch)
  | _ => none

/-- The value and the body of a block with a context of its own. -/
def contextParts? {α : Type} : List α → Option (Option α × α)
  | [body] => some (none, body)
  | [value, body] => some (some value, body)
  | _ => none

/-- The name and the body of the definition of a template. -/
def definitionParts? {α : Type} : List α → Option (α × α)
  | [name, body] => some (name, body)
  | _ => none

namespace Expr

/-! ### Operations -/

/-- The first operation in an expression that is unknown or sought. -/
def firstOperation? (operations : Operations) (sought : Operation → Bool) (e : Expr) :
    Option String :=
  (e.calls.map Prod.fst).find? fun name => (Keyed.find? name operations).all sought

/-- Whether every operation in the expression is known and none is ever awaited. -/
def isSync (operations : Operations) (e : Expr) : Bool :=
  (e.firstOperation? operations fun op => !op.isSync).isNone

/-- The first operation in the expression that cannot be tried without awaiting it. -/
def firstAsync? (operations : Operations) (e : Expr) : Option String :=
  e.firstOperation? operations fun op => !op.supportsSync

/-- The first operation in the expression that is unknown. -/
def firstUnknown? (operations : Operations) (e : Expr) : Option String :=
  e.firstOperation? operations fun _ => false

/-- Whether an operation in the expression may read the frames around it, or is unknown. -/
def capturesScope (operations : Operations) (e : Expr) : Bool :=
  (e.firstOperation? operations Operation.capturesScope).isSome

/-- No operation is found exactly when each is known and none is sought. -/
theorem firstOperation?_eq_none {operations : Operations} {sought : Operation → Bool} {e : Expr} :
    e.firstOperation? operations sought = none ↔
      ∀ c ∈ e.calls, ∃ op, Keyed.find? c.1 operations = some op ∧ sought op = false := by
  simp only [firstOperation?, List.find?_eq_none, List.mem_map, forall_exists_index, and_imp,
    forall_apply_eq_imp_iff₂]
  refine forall₂_congr fun c _ => ?_
  cases Keyed.find? c.1 operations <;> simp [Option.all]

end Expr

/-! ### Determinism -/

/-- Whether something is deterministic, with its context known or not. -/
abbrev Determinacy := Bool → Bool

namespace Operation

/-- Whether a call of the operation is deterministic, given the determinacy of its arguments. -/
def determinacy (registry : Registry) (op : Operation) (args : List (Operand Determinacy)) :
    Determinacy := fun known =>
  let valuesKnown := (Operand.values args).all fun (_, d) => d known
  match op with
  | .form _ => args.all fun o => o.made known
  | .method m => m.deterministic && args.all fun o => o.made known
  | .loop _ =>
    match loopParts? (Operand.positional args) with
    | some (selector, body, branch) =>
      selector known && valuesKnown && body true && branch.all (· known)
    | none => false
  | .context =>
    match contextParts? (Operand.positional args) with
    | some (value, body) => valuesKnown && value.all (· known) && body true
    | none => false
  | .template =>
    match (Operand.split args).positional with
    | ⟨.literal name, _⟩ :: _ =>
      match Keyed.find? name.keyText registry with
      | some entry =>
        if (Operand.values args).isEmpty then entry.traits.isInlinable
        else entry.traits.isDeterministic && valuesKnown
      | none => false
    | _ => false
  | .define | .lookup | .position _ => false

end Operation

namespace Expr

mutual

/-- Whether the expression is deterministic, with its context known or not. -/
def determinacy (operations : Operations) (registry : Registry) : Expr → Determinacy
  | .literal _ => fun _ => true
  | .path _ => fun known => known
  | .named _ value => determinacy operations registry value
  | .call operation args =>
    match Keyed.find? operation operations with
    | some op =>
      op.determinacy registry (Operand.ofLists args (determinacies operations registry args))
    | none => fun _ => false

/-- Whether the expressions of a list are deterministic, each for itself. -/
def determinacies (operations : Operations) (registry : Registry) : List Expr → List Determinacy
  | [] => []
  | e :: es => determinacy operations registry e :: determinacies operations registry es

end

/-- Whether the value of the expression depends on nothing at all. -/
def isDeterministic (operations : Operations) (registry : Registry) (e : Expr) : Bool :=
  e.determinacy operations registry false

/-- What can be known about an expression that becomes the body of a template. -/
def traits (operations : Operations) (registry : Registry) (e : Expr) : Traits :=
  { isSync := e.isSync operations
    isDeterministic := e.determinacy operations registry true
    isInlinable := e.determinacy operations registry false }

end Expr

/-! ### Entries -/

namespace TemplateEntry

/-- The entry of an expression that is walked at every call. -/
def interpreted (operations : Operations) (registry : Registry) (name : String) (e : Expr) :
    TemplateEntry :=
  { name
    body := .interpreted e (e.isSync operations)
    traits := e.traits operations registry
    capturesScope := e.capturesScope operations }

/-- The entry of an expression that has been built as a fragment. -/
def compiled (operations : Operations) (registry : Registry) (name : String) (e : Expr)
    (fragment : Fragment) : TemplateEntry :=
  { name
    body := .compiled fragment
    traits := { e.traits operations registry with isSync := fragment.isSync }
    capturesScope := fragment.touchesFrames }

/-- The entry of a definition inside a template that has been built. -/
def defined (name : String) (body : Fragment) (traits : Traits) : TemplateEntry :=
  { name, body := .compiled body, traits, capturesScope := body.touchesFrames }

end TemplateEntry

end Stencil
