import Stencil.Value.Read
import Stencil.Text.Whitespace

/-!
# Comparing values

Values are compared in three ways. The strict equality tells the kinds apart, but an integer equals
the number of its magnitude, and records are equal whatever the order of their fields. What is no
number equals nothing, but a container that holds it is still equal to itself. The loose equality
coerces scalars to numbers when the other side calls for it. The order is that of texts between
texts, and that of numbers otherwise.
-/

namespace Stencil.Value

/-! ### Numbers -/

/-- The number that a text is coerced to: zero when it is blank, no number when it spells none. -/
def textNumber (text : String) : Float :=
  match Text.trim text.toList with
  | [] => 0
  | cs => (Number.ofText? cs).getD (Exact.toFloat .nan)

/-- The number that a value is coerced to. A sequence of one item counts as that item. -/
def toNumber : Value → Float
  | .null => 0
  | .bool b => if b then 1 else 0
  | .int n => Number.ofWord n
  | .float x => x
  | .string text => textNumber text
  | .array _ [] => 0
  | .array _ [item] => toNumber item
  | .array _ _ | .object _ _ | .map _ _ => Exact.toFloat .nan

/-! ### Equality -/

mutual

/-- Strict equality of values that are found in two containers. When these are one and the same,
what is no number equals itself. -/
def equalWithin (same : Bool) : Value → Value → Bool
  | .null, .null => true
  | .bool a, .bool b => a == b
  | .int a, .int b => a == b
  | .int a, .float b => Number.ofWord a == b
  | .float a, .int b => Number.ofWord b == a
  | .float a, .float b => a == b || (same && a.isNaN && b.isNaN)
  | .string a, .string b => a == b
  | .array m a, .array n b => equalItems (same || m.same n) a b
  | .object m a, .object n b => a.length == b.length && fieldsWithin (same || m.same n) a b
  | .map m a, .map n b => equalEntries (same || m.same n) a b
  | _, _ => false

/-- Equality of sequences, item by item. -/
def equalItems (same : Bool) : List Value → List Value → Bool
  | [], [] => true
  | a :: as, b :: bs => equalWithin same a b && equalItems same as bs
  | _, _ => false

/-- Whether every field on the left has an equal one on the right. -/
def fieldsWithin (same : Bool) : List (String × Value) → List (String × Value) → Bool
  | [], _ => true
  | (name, a) :: fields, others =>
    (match Keyed.find? name others with
     | some b => equalWithin same a b
     | none => false) && fieldsWithin same fields others

/-- Equality of maps, entry by entry. -/
def equalEntries (same : Bool) : List (Value × Value) → List (Value × Value) → Bool
  | [], [] => true
  | (key, a) :: as, (key', b) :: bs =>
    equalWithin same key key' && equalWithin same a b && equalEntries same as bs
  | _, _ => false

end

/-- Strict equality. -/
def equal : Value → Value → Bool :=
  equalWithin false

instance : BEq Value := ⟨equal⟩

/-- Loose equality. `null` equals nothing else; of two scalars, one of which is a text or a
boolean, the numbers are compared, unless both are texts. -/
def looselyEqual (a b : Value) : Bool :=
  match a, b with
  | .null, .null => true
  | .null, _ | _, .null => false
  | .string s, .string t => s == t
  | .string _, _ | _, .string _ | .bool _, _ | _, .bool _ =>
    if a.isScalar && b.isScalar then a.toNumber == b.toNumber else equal a b
  | _, _ => equal a b

/-! ### Order -/

/-- The order of two numbers, when both are numbers. -/
def compareNumbers (x y : Float) : Option Ordering :=
  if x < y then some .lt
  else if y < x then some .gt
  else if x == y then some .eq
  else none

/-- The order of two texts, character by character. -/
def compareTexts (s t : String) : Ordering :=
  if s < t then .lt else if s = t then .eq else .gt

/-- The order of two values: that of texts between texts, that of numbers otherwise. There is none
when one side is no number. -/
def order (a b : Value) : Option Ordering :=
  match a, b with
  | .string s, .string t => some (compareTexts s t)
  | _, _ => compareNumbers a.toNumber b.toNumber

end Stencil.Value
