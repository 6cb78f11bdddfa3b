import Stencil.Value.Read

/-!
# Paths

A path names a part of the current context. Points and slashes separate its segments; empty
segments and the word `this` stand for the place one is at and are dropped. A path without segments
is the context itself.
-/

namespace Stencil

/-- A path read from the current context. -/
structure Path where
  segments : List String
  deriving DecidableEq, Repr, Inhabited

namespace Path

/-- Whether a character separates segments. -/
def isSeparator (c : Char) : Bool :=
  c == '.' || c == '/'

/-- Reads a path. -/
def ofText (text : String) : Path :=
  ⟨(Text.split isSeparator text).filter fun s => !s.isEmpty && s != "this"⟩

/-- The context itself. -/
def this : Path := ⟨[]⟩

/-- Whether the path is the context itself. -/
def isThis (p : Path) : Bool :=
  p.segments.isEmpty

/-- The part of a context that the path leads to. -/
def resolve (p : Path) (context : Value) : Value :=
  context.read p.segments

/-- The path as it is written: points between its segments. -/
def text (p : Path) : String :=
  if p.isThis then "this" else ".".intercalate p.segments

end Path

end Stencil
