import Stencil.Value.Text
import Stencil.Number.Reader
import Stencil.Text.Split

/-!
# Reading inside values

A path walks from a value to a part of it, one segment after the other: by name into a record, by
position into a sequence, and by the text of a key into a map. What is missing reads as `null`, and
the last segment `length` counts what has no such key.

## Main results

* `read_cons_empty`: an empty segment stays where it is.
-/

namespace Stencil.Value

/-- Whether a value, as a key of a map, answers to a name. Only scalars do. -/
def answersTo (name : String) : Value → Bool
  | .string text => text == name
  | .null | .array _ _ | .object _ _ | .map _ _ => false
  | key => key.output == name

/-- The part of a value under one segment. -/
def get? (v : Value) (segment : String) : Option Value :=
  match v with
  | .object _ fields => Keyed.find? segment fields
  | .array _ items => (Number.indexOfText? segment.toList).bind (items[·]?)
  | .map _ entries => (entries.find? fun entry => entry.1.answersTo segment).map Prod.snd
  | _ => none

/-- How many items, characters or entries a value has; `null` for the others. -/
def count : Value → Value
  | .array _ items => ofNat items.length
  | .string text => ofNat text.length
  | .map _ entries => ofNat entries.length
  | _ => .null

/-- The part of a value that a path leads to. -/
def read (v : Value) : List String → Value
  | [] => v
  | segment :: rest =>
    if segment.isEmpty then read v rest
    else match v.get? segment with
      | some part => read part rest
      | none => if segment = "length" ∧ rest = [] then v.count else .null

/-- The part of a value that a path with points between its segments leads to. -/
def readDotted (v : Value) (path : String) : Value :=
  if path.isEmpty then v else v.read (Text.split (· == '.') path)

/-! ### Walking -/

@[simp] theorem read_cons_empty (v : Value) (rest : List String) :
    v.read ("" :: rest) = v.read rest := rfl

end Stencil.Value
