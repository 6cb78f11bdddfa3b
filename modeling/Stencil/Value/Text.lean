import Stencil.Value.Basic
import Stencil.Number.Layout

/-!
# The text of a value

Values have two texts. In rendered output a scalar is written bare, `null` leaves nothing, and the
items of a sequence are separated by commas. Records and maps are written as data text, and so is
everything inside them: the compact notation with quoted texts, brackets and braces, in which a map
is a record under the output texts of its keys.

## Main definitions

* `Value.output`: the text of a value in rendered output.
* `Value.data`: the data text of a value.
* `Value.plain`: the value that its data text stands for, which holds no maps.
-/

namespace Stencil

namespace DataText

/-- A character of a quoted text. The quote and the backslash are escaped, and so are the controls,
of which five have a short form. -/
def escapeChar (c : Char) : List Char :=
  match c with
  | '"' => ['\\', '"']
  | '\\' => ['\\', '\\']
  | '\x08' => ['\\', 'b']
  | '\x0c' => ['\\', 'f']
  | '\n' => ['\\', 'n']
  | '\r' => ['\\', 'r']
  | '\t' => ['\\', 't']
  | c =>
    if c.toNat < 0x20 then
      ['\\', 'u', '0', '0', Nat.digitChar (c.toNat / 16), Nat.digitChar (c.toNat % 16)]
    else [c]

/-- A text between quotes. -/
def quote (text : String) : String :=
  String.ofList ('"' :: text.toList.flatMap escapeChar ++ ['"'])

/-- Texts with commas between them, inside two brackets. -/
def bracket (opening closing : String) (texts : List String) : String :=
  opening ++ ",".intercalate texts ++ closing

/-- A name and the text of its value. -/
def field (name text : String) : String :=
  quote name ++ ":" ++ text

end DataText

namespace Value

open DataText

mutual

/-- The text of a value in rendered output. -/
def output : Value → String
  | .null => ""
  | .bool b => if b then "true" else "false"
  | .int n => Number.integerText n.toInt
  | .float x => Number.text x
  | .string text => text
  | .array _ items => ",".intercalate (outputs items)
  | .object _ fields => bracket "\x7b" "\x7d" (dataFields fields)
  | .map _ entries => bracket "\x7b" "\x7d" (dataEntries entries)

/-- The texts of the items of a sequence. -/
def outputs : List Value → List String
  | [] => []
  | item :: items => output item :: outputs items

/-- The data text of a value. -/
def data : Value → String
  | .null => "null"
  | .bool b => if b then "true" else "false"
  | .int n => Number.integerText n.toInt
  | .float x => Number.dataText x
  | .string text => quote text
  | .array _ items => bracket "[" "]" (dataItems items)
  | .object _ fields => bracket "\x7b" "\x7d" (dataFields fields)
  | .map _ entries => bracket "\x7b" "\x7d" (dataEntries entries)

/-- The data texts of the items of a sequence. -/
def dataItems : List Value → List String
  | [] => []
  | item :: items => data item :: dataItems items

/-- The data texts of the fields of a record. -/
def dataFields : List (String × Value) → List String
  | [] => []
  | (name, value) :: fields => field name (data value) :: dataFields fields

/-- The data texts of the entries of a map. A repeated key is repeated. -/
def dataEntries : List (Value × Value) → List String
  | [] => []
  | (key, value) :: entries => field (output key) (data value) :: dataEntries entries

end

/-- The name that a value gives as a key. -/
def keyText (v : Value) : String :=
  v.output

mutual

/-- The value that a data text stands for. A map becomes a record, in which a repeated key keeps
its first place and takes its last value; a number that a word holds becomes that integer, and a
number that is not finite becomes `null`. Containers keep their marks. -/
def plain : Value → Value
  | .float x =>
    match Number.toWord? x with
    | some n => .int n
    | none => if x.isFinite then .float x else .null
  | .array mark items => .array mark (plainItems items)
  | .object mark fields => .object mark (Keyed.ofList (plainFields fields))
  | .map mark entries => .object mark (Keyed.ofList (plainEntries entries))
  | v => v

/-- The items of a sequence without maps. -/
def plainItems : List Value → List Value
  | [] => []
  | item :: items => plain item :: plainItems items

/-- The fields of a record without maps. -/
def plainFields : List (String × Value) → List (String × Value)
  | [] => []
  | (name, value) :: fields => (name, plain value) :: plainFields fields

/-- The entries of a map under the names that its keys give. -/
def plainEntries : List (Value × Value) → List (String × Value)
  | [] => []
  | (key, value) :: entries => (keyText key, plain value) :: plainEntries entries

end

end Value

end Stencil
