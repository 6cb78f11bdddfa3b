import Stencil.Fragment

/-!
# Registries

A registry holds templates under their names. A template is kept as an expression that is walked at
every call, or as a fragment that has been built, together with what is known about it. A name that
is registered again gets its new template; a definition inside a template leaves a name alone that
is taken.
-/

namespace Stencil

/-- What a call of a template runs. -/
inductive TemplateBody where
  | compiled (fragment : Fragment)
  /-- An expression that is walked at every call. Whether anything in it is ever awaited was settled
  when it was stored. -/
  | interpreted (expr : Expr) (isSync : Bool)
  deriving Inhabited

/-- A registered template. -/
structure TemplateEntry where
  name : String
  body : TemplateBody
  traits : Traits
  /-- The body reads the frames around it, so that a call leaves one behind. -/
  capturesScope : Bool

/-- Templates by name. -/
abbrev Registry := Keyed TemplateEntry

namespace Registry

/-- The template of a name. -/
def get (registry : Registry) (name : String) : Except Error TemplateEntry :=
  match Keyed.find? name registry with
  | some entry => .ok entry
  | none => .error (.templateNotFound name)

/-- Registers a template under its name, in the place of whatever had the name. -/
def register (registry : Registry) (entry : TemplateEntry) : Registry :=
  Keyed.insert entry.name entry registry

/-- Registers a template under its name, unless the name is taken. -/
def define (registry : Registry) (entry : TemplateEntry) : Registry :=
  Keyed.insertNew entry.name entry registry

end Registry

end Stencil
