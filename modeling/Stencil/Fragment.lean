import Stencil.Operation

/-!
# Fragments

A fragment is an expression that has been built once to be evaluated many times: its operations are
resolved, its arguments are taken apart, and what is known beforehand is a constant. A fragment
tells of itself whether it has to be awaited and whether it reads the frames around it.

## Main results

* `Shape.max_le_iff`: two things stay within a shape together exactly when each of them does.
-/

namespace Stencil

/-- How a fragment can be evaluated. -/
inductive Shape where
  /-- Nothing is ever awaited. -/
  | sync
  /-- It can be tried without awaiting, and can be awaited too. -/
  | dual
  /-- It has to be awaited. -/
  | async
  deriving DecidableEq, Repr

namespace Shape

/-- The rank of a shape: the more it has to be awaited, the higher. -/
def rank : Shape → Nat
  | sync => 0
  | dual => 1
  | async => 2

instance : LE Shape := ⟨fun a b => a.rank ≤ b.rank⟩

instance (a b : Shape) : Decidable (a ≤ b) :=
  inferInstanceAs (Decidable (a.rank ≤ b.rank))

/-- The shape of two things that are evaluated together. -/
def max (a b : Shape) : Shape :=
  if a ≤ b then b else a

/-- Nothing has a lesser shape than what runs without awaiting. -/
theorem sync_le (a : Shape) : sync ≤ a := by
  cases a <;> decide

/-- Two things stay within a shape together exactly when each of them does. -/
theorem max_le_iff {a b c : Shape} : max a b ≤ c ↔ a ≤ c ∧ b ≤ c := by
  cases a <;> cases b <;> cases c <;> decide

end Shape

/-- What is known about the body of a template without running it. -/
structure Traits where
  /-- Nothing in it is ever awaited. -/
  isSync : Bool
  /-- Its output depends on its context alone. -/
  isDeterministic : Bool
  /-- Its output depends on nothing at all. -/
  isInlinable : Bool
  deriving DecidableEq, Repr

/-- An expression that has been built. -/
inductive Fragment where
  | const (value : Value)
  | path (path : Path)
  | lookup (path : String)
  | position (read : PositionRead)
  | form (form : Form) (parts : List Fragment)
  | loop (kind : LoopKind) (params : List String) (selector body branch : Fragment)
  | context (params : List String) (named : List (String × Fragment)) (value : Option Fragment)
      (body : Fragment)
  | template (name : Fragment) (named : List (String × Fragment))
  | define (name body : Fragment) (traits : Traits)
  | method (method : Method) (args : List (Option String × Fragment))
  /-- A fragment that has to be awaited, and the operation that it has to be awaited for. -/
  | awaiting (operation : String) (inner : Fragment)

namespace Fragment

mutual

/-- How the fragment can be evaluated. A called template is known only when it is called. A defined
body is not evaluated where it is defined. -/
def shape : Fragment → Shape
  | const _ | path _ | lookup _ | position _ => .sync
  | form _ parts => shapeAll parts
  | loop _ _ selector body branch => (selector.shape.max body.shape).max branch.shape
  | context _ named value body =>
    ((shapeNamed named).max (match value with
      | some v => v.shape
      | none => .sync)).max body.shape
  | template name named => (name.shape.max (shapeNamed named)).max .dual
  | define name _ _ => name.shape
  | method m args => if m.isAsync then .async else shapeArgs args
  | awaiting _ _ => .async

/-- The shape of fragments that are evaluated together. -/
def shapeAll : List Fragment → Shape
  | [] => .sync
  | f :: fs => f.shape.max (shapeAll fs)

/-- The shape of named fragments. -/
def shapeNamed : List (String × Fragment) → Shape
  | [] => .sync
  | (_, f) :: fs => f.shape.max (shapeNamed fs)

/-- The shape of the arguments of a method. -/
def shapeArgs : List (Option String × Fragment) → Shape
  | [] => .sync
  | (_, f) :: fs => f.shape.max (shapeArgs fs)

end

/-- Whether the fragment is never awaited. -/
def isSync (f : Fragment) : Bool :=
  f.shape = .sync

/-- Whether the fragment can be tried without awaiting it. -/
def supportsSync (f : Fragment) : Bool :=
  f.shape ≠ .async

mutual

/-- Whether the fragment reads the frames around it. A called template may. -/
def touchesFrames : Fragment → Bool
  | const _ | path _ | position _ => false
  | lookup _ | template _ _ => true
  | form _ parts => touchesAny parts
  | loop _ _ selector body branch =>
    selector.touchesFrames || body.touchesFrames || branch.touchesFrames
  | context _ named value body =>
    touchesNamed named || (match value with
      | some v => v.touchesFrames
      | none => false) || body.touchesFrames
  | define name _ _ => name.touchesFrames
  | method _ args => touchesArgs args
  | awaiting _ inner => inner.touchesFrames

/-- Whether one of the fragments reads the frames around it. -/
def touchesAny : List Fragment → Bool
  | [] => false
  | f :: fs => f.touchesFrames || touchesAny fs

/-- Whether one of the named fragments reads the frames around it. -/
def touchesNamed : List (String × Fragment) → Bool
  | [] => false
  | (_, f) :: fs => f.touchesFrames || touchesNamed fs

/-- Whether one of the arguments of a method reads the frames around it. -/
def touchesArgs : List (Option String × Fragment) → Bool
  | [] => false
  | (_, f) :: fs => f.touchesFrames || touchesArgs fs

end

/-- The value of a constant. -/
def const? : Fragment → Option Value
  | const value => some value
  | _ => none

/-- The operation that the fragment has to be awaited for. -/
def awaited? : Fragment → Option String
  | awaiting operation _ => some operation
  | _ => none

end Fragment

end Stencil
