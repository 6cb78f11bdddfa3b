import Stencil.Builtin.Arithmetic
import Stencil.Text.Case
import Stencil.Text.Escape

/-!
# Methods on texts and containers

The methods that change the case of a text, cut it, escape it or write it as data; that build and
merge sequences and records; that read inside them; and that choose by a value.
-/

namespace Stencil.Builtin

/-- A method that takes a text as its first argument. -/
def onText (name : String) (f : String → Arguments → Value) (args : Arguments) : Answer :=
  match args.get 0 with
  | .string text => .ok (f text args)
  | other => { outcome := .error (.mismatch (.textExpected name other.typeName)) }

/-- The text in small letters. -/
def lowercase : Arguments → Answer :=
  onText "lowercase" fun text _ => .string (Text.toLower text)

/-- The text in capital letters. -/
def uppercase : Arguments → Answer :=
  onText "uppercase" fun text _ => .string (Text.toUpper text)

/-- The first characters of the text, as many as the second argument tells. -/
def truncate : Arguments → Answer :=
  onText "truncate" fun text args =>
    match Number.limit (args.get 1).toNumber with
    | some n => .string (String.ofList (text.toList.take n))
    | none => .string text

/-- A text as it is written inside markup. `null` is the empty text, and what is no text stays as
it is. -/
def escape (args : Arguments) : Value :=
  match args.get 0 with
  | .null => .string ""
  | .string text => .string (Markup.escapeText text)
  | other => other

/-- The data text of the first argument. -/
def dataText (args : Arguments) : Value :=
  .string (args.get 0).data

/-- The positional arguments as a sequence. -/
def sequence (args : Arguments) : Value :=
  .array .new args.positional

/-- The pairs of keys and values that a list spells. The last key may lack a value. -/
def pairs : List Value → List (String × Value)
  | [] => []
  | [key] => [(key.keyText, .null)]
  | key :: value :: rest => (key.keyText, value) :: pairs rest

/-- The named arguments and then the pairs of positional ones as a record. -/
def record (args : Arguments) : Value :=
  .object .new (Keyed.extend args.named (pairs args.positional))

/-- The fields of all records among the arguments in one record. Later fields win. -/
def merge (args : Arguments) : Value :=
  .object .new ((args.positional.filterMap Value.fields?).foldl Keyed.extend [])

/-- The part of the first argument that the second one, as a dotted path, leads to. -/
def get (args : Arguments) : Value :=
  (args.get 0).readDotted (args.get 1).keyText

/-- The value after the first key that equals `value`, in a list of keys and values that may end in
a fallback. Without such a key it is the last item of the list. -/
def matchPairs (value : Value) : List Value → Value
  | [] => .null
  | [fallback] => fallback
  | [_, last] => last
  | key :: found :: rest => if key.equal value then found else matchPairs value rest

/-- Chooses by the first argument: a truthy named argument under its text, or else by the
positional pairs. -/
def choose (args : Arguments) : Value :=
  let value := args.get 0
  match (Keyed.find? value.keyText args.named).bind Value.filterTruthy with
  | some found => found
  | none => matchPairs value (args.positional.drop 1)

/-- Whether the first argument is not truthy. -/
def negate (args : Arguments) : Value :=
  .bool !(args.get 0).truthy

/-- Whether the first argument is a sequence. -/
def isSequence (args : Arguments) : Value :=
  .bool (args.get 0).items?.isSome

/-- The name of the kind of the first argument. -/
def kind (args : Arguments) : Value :=
  .string (args.get 0).typeName

/-- Logs the data text of the first argument and answers with it. -/
def log (args : Arguments) : Answer :=
  { outcome := .ok (args.get 0), log := [(args.get 0).plain.data] }

end Stencil.Builtin
