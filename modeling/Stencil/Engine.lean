import Stencil.Data.Document
import Stencil.Synthesis
import Stencil.Source.Meaning

/-!
# Engines

An engine reads template texts, builds them and renders them. A template is built in one of four
ways: as an expression that is walked or as a fragment, and to be run with or without awaiting.
Building refuses operations that are unknown, and operations that have to be awaited where nothing
will be.

## Main definitions

* `Engine.read`: the expression of a template text.
* `Engine.buildTemplate`, `Template.render`: building and rendering.
* `Template.renderData`: rendering against what is read from a document.
* `Engine.register`: registers a template for other templates to call.
-/

namespace Stencil

namespace Settings

/-- Whether a switch is set: to anything but nothing, zero, or a spelling of false. -/
def isSet (text : String) : Bool :=
  let trimmed := String.ofList (Text.trim text.toList)
  !trimmed.isEmpty && !(["0", "false", "FALSE", "False"].contains trimmed)

/-- The settings under two switches, each of which turns something off. -/
def ofSwitches (noFold noUnroll : Option String) : Settings :=
  { fold := !noFold.any isSet, unroll := !noUnroll.any isSet }

end Settings

/-- A way to build a template. -/
structure Strategy where
  compiled : Bool
  mode : Mode
  deriving DecidableEq, Repr

namespace Strategy

/-- Walked, without awaiting. -/
def interpreted : Strategy := ⟨false, .sync⟩

/-- Built as a fragment, without awaiting. -/
def compiledSync : Strategy := ⟨true, .sync⟩

/-- Walked and awaited. -/
def interpretedAsync : Strategy := ⟨false, .awaited⟩

/-- Built as a fragment and awaited. -/
def compiledAsync : Strategy := ⟨true, .awaited⟩

end Strategy

/-- A template that has been built. -/
structure Template where
  mode : Mode
  body : TemplateBody

namespace Engine

/-! ### Operations -/

/-- Whether a name is an operation. -/
def hasOperation (engine : Engine) (name : String) : Bool :=
  Keyed.contains name engine.operations

/-- Adds a method under its name, in the place of whatever had the name. -/
def addMethod (engine : Engine) (m : Method) : Engine :=
  { engine with operations := Keyed.insert m.name (.method m) engine.operations }

/-- Gives an operation another name. -/
def addAlias (engine : Engine) (other name : String) : Except Error Engine := do
  let op ← engine.operations.get name
  return { engine with operations := Keyed.insert other op engine.operations }

/-! ### Building -/

/-- The expression of a template text. -/
def read (engine : Engine) (text : String) (options : Options) : Except Error Expr :=
  (Source.readFolded text options engine.hasOperation).mapError .malformed

/-- The body of a template that is walked. -/
def interpretedBody (engine : Engine) (e : Expr) : TemplateBody :=
  .interpreted e (e.isSync engine.operations)

/-- Refuses the operations that a walk cannot run: without awaiting those that are unknown or have
to be awaited, and otherwise those that are unknown. -/
def checkWalk (engine : Engine) (mode : Mode) (e : Expr) : Except Error Unit :=
  match mode with
  | .sync =>
    match e.firstAsync? engine.operations with
    | some name => do
      let _ ← engine.operations.get name
      throw (.awaitRequired name)
    | none => .ok ()
  | .awaited =>
    match e.firstUnknown? engine.operations with
    | some name => throw (.unknownOperation name)
    | none => .ok ()

/-- Refuses a fragment that has to be awaited where nothing is. -/
def checkFragment (mode : Mode) (f : Fragment) : Except Error Unit :=
  if mode = .sync ∧ !f.supportsSync then throw (.awaitRequired (f.awaited?.getD "template"))
  else .ok ()

/-- Builds a template. -/
def buildTemplate (engine : Engine) (depth : Nat) (strategy : Strategy) (e : Expr) :
    EvalM Template := do
  if strategy.compiled then
    let f ← engine.build depth e
    EvalM.ofExcept (checkFragment strategy.mode f)
    return { mode := strategy.mode, body := .compiled f }
  else
    EvalM.ofExcept (engine.checkWalk strategy.mode e)
    return { mode := strategy.mode, body := engine.interpretedBody e }

/-- The entry of an expression that is registered under a name. -/
def buildEntry (engine : Engine) (depth : Nat) (name : String) (e : Expr) (interpreted : Bool) :
    EvalM TemplateEntry := do
  if interpreted then
    return TemplateEntry.interpreted engine.operations (← EvalM.templates) name e
  else
    let f ← engine.build depth e
    return TemplateEntry.compiled engine.operations (← EvalM.templates) name e f

/-- Registers an expression under a name. -/
def registerExpr (engine : Engine) (depth : Nat) (name : String) (e : Expr) (interpreted : Bool) :
    EvalM Unit := do
  let entry ← engine.buildEntry depth name e interpreted
  EvalM.setTemplates ((← EvalM.templates).register entry)

/-- Registers an expression under a name, either in the place of whatever had the name or only when
the name is free: whether an entry was replaced, or whether the name was free. -/
def insertEntry (engine : Engine) (depth : Nat) (name : String) (e : Expr)
    (interpreted ifAbsent : Bool) : EvalM Bool := do
  let entry ← engine.buildEntry depth name e interpreted
  let templates ← EvalM.templates
  let taken := Keyed.contains name templates
  if ifAbsent then
    EvalM.setTemplates (templates.define entry)
    return !taken
  else
    EvalM.setTemplates (templates.register entry)
    return taken

/-- Registers a template text under a name. -/
def register (engine : Engine) (depth : Nat) (name text : String) (options : Options)
    (interpreted : Bool) : EvalM Unit := do
  engine.registerExpr depth name (← EvalM.ofExcept (engine.read text options)) interpreted

end Engine

/-- Renders a template against a value. -/
def Template.render (engine : Engine) (depth : Nat) (template : Template) (data : Value) :
    EvalM String := do
  let data ← EvalM.settle data
  let v ← engine.runTemplate depth template.mode template.body (Scope.root data)
  return v.output

/-- Renders a template against the value that is read back from the document of a value. It is read
back before anything is rendered, so that its containers are numbered in a run of their own. -/
def Template.renderData (engine : Engine) (depth : Nat) (template : Template) (data : Value) :
    EvalM String := do
  let data ← EvalM.keeping (EvalM.settle data.document.value)
  template.render engine depth data

end Stencil
