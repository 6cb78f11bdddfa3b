import Stencil.Engine

/-!
# Workspaces

A workspace holds several engines. Engines may share their operations, and they may share their
registry, so both are kept in tables, and an engine is a pair of places in them. One registry is
there from the start for all engines that do not ask for one of their own. Built templates are kept
with the engine they were built on. What they keep outlives the evaluation that made it, so the
workspace counts the runs that made it.

## Main results

* `exists_of_perform`: running something on an engine changes its registry alone.
-/

namespace Stencil

/-- The places of the parts of an engine. -/
structure Seat where
  operations : Nat
  registry : Nat
  deriving DecidableEq, Repr, Inhabited

/-- Several engines and the templates built on them. -/
structure Workspace where
  settings : Settings := {}
  operations : List Operations := []
  /-- The first registry is the common one. -/
  registries : List Registry := [[]]
  engines : Keyed Seat := []
  built : Keyed (Seat × Template) := []
  /-- How many runs have made what a built template keeps. -/
  kept : Nat := 0

/-- How an engine comes by its parts. -/
inductive EngineOrigin where
  /-- Its own operations and its own registry. -/
  | isolated
  /-- Its own operations and the common registry. -/
  | common
  /-- Its own operations and the registry of another engine. -/
  | sharing (registry : Nat)
  /-- The operations and the registry of another engine. -/
  | clone (seat : Seat)

/-- What running something led to. -/
structure Outcome (α : Type) where
  result : Except Error α
  /-- The lines that were logged. -/
  log : List String := []

namespace Workspace

/-- The engine at a place. -/
def engineAt (w : Workspace) (seat : Seat) : Engine :=
  { operations := w.operations[seat.operations]?.getD [], settings := w.settings }

/-- The registry at a place. -/
def registryAt (w : Workspace) (seat : Seat) : Registry :=
  w.registries[seat.registry]?.getD []

/-- Adds an engine under a name. -/
def addEngine (w : Workspace) (name : String) (origin : EngineOrigin) : Workspace :=
  let fresh := w.operations.length
  match origin with
  | .isolated =>
    { w with
      operations := w.operations ++ [Operations.builtin]
      registries := w.registries ++ [[]]
      engines := Keyed.insert name ⟨fresh, w.registries.length⟩ w.engines }
  | .common =>
    { w with
      operations := w.operations ++ [Operations.builtin]
      engines := Keyed.insert name ⟨fresh, 0⟩ w.engines }
  | .sharing registry =>
    { w with
      operations := w.operations ++ [Operations.builtin]
      engines := Keyed.insert name ⟨fresh, registry⟩ w.engines }
  | .clone seat => { w with engines := Keyed.insert name seat w.engines }

/-- Replaces the operations at a place. -/
def setOperations (w : Workspace) (seat : Seat) (operations : Operations) : Workspace :=
  { w with operations := w.operations.set seat.operations operations }

/-- Adds a method to an engine. -/
def addMethod (w : Workspace) (seat : Seat) (m : Method) : Workspace :=
  w.setOperations seat ((w.engineAt seat).addMethod m).operations

/-- Gives an operation of an engine another name. -/
def addAlias (w : Workspace) (seat : Seat) (other name : String) : Except Error Workspace := do
  let engine ← (w.engineAt seat).addAlias other name
  return w.setOperations seat engine.operations

/-- Runs something on an engine: what it led to, and the workspace afterwards. There is no answer
when calls of templates nest too deep. -/
def perform {α : Type} (w : Workspace) (seat : Seat) (action : Engine → EvalM α) :
    Option (Outcome α × Workspace) :=
  let before : Effects := { templates := w.registryAt seat, kept := w.kept }
  (action (w.engineAt seat) before).map fun (result, effects) =>
    ({ result, log := effects.log },
      { w with
        registries := w.registries.set seat.registry effects.templates
        kept := effects.kept })

/-- What is run on an engine starts with its registry, and leaves all others as they are. -/
theorem exists_of_perform {α : Type} {w w' : Workspace} {seat : Seat} {action : Engine → EvalM α}
    {outcome : Outcome α} (h : w.perform seat action = some (outcome, w')) :
    ∃ result effects,
      action (w.engineAt seat) { templates := w.registryAt seat, kept := w.kept } =
        some (result, effects) ∧
      outcome = { result, log := effects.log } ∧
      w' = { w with
        registries := w.registries.set seat.registry effects.templates
        kept := effects.kept } := by
  simp only [perform, Option.map_eq_some_iff, Prod.mk.injEq] at h
  obtain ⟨⟨result, effects⟩, hrun, houtcome, hw⟩ := h
  exact ⟨result, effects, hrun, houtcome.symm, hw.symm⟩

/-- Keeps a built template under a name. -/
def keep (w : Workspace) (name : String) (seat : Seat) (template : Template) : Workspace :=
  { w with built := Keyed.insert name (seat, template) w.built }

/-- Replaces the registry of an engine. -/
def setRegistry (w : Workspace) (seat : Seat) (registry : Registry) : Workspace :=
  { w with registries := w.registries.set seat.registry registry }

end Workspace

end Stencil
