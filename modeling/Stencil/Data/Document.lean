import Stencil.Value.Text

/-!
# Documents

Values that come from outside are handed over as documents, the trees that data texts spell. A
document has records, whose fields are written by name, but no maps: a map is handed over as a
record under the names that its keys give. An integer stays an integer. A floating-point number is
handed over as an integer when a word holds it, and as nothing when it is not finite.

A value that is read back from a document has been made anew, so that its containers carry no marks.

## Main definitions

* `Value.document`: the document that a value is handed over as.
* `Document.value`: the value that a document is read as.
-/

namespace Stencil

/-- A tree that a data text spells. -/
inductive Document where
  | null
  | bool (b : Bool)
  | integer (n : Int64)
  /-- A number that is no integer. -/
  | real (x : Float)
  | string (text : String)
  | array (items : List Document)
  /-- A record. Its fields keep the order in which they were first written. -/
  | object (fields : List (String × Document))
  deriving Inhabited

namespace Value

mutual

/-- The document that a value is handed over as. The fields of records, and the entries of maps
under the names of their keys, are written one after another. -/
def document : Value → Document
  | .null => .null
  | .bool b => .bool b
  | .int n => .integer n
  | .float x =>
    match Number.toWord? x with
    | some n => .integer n
    | none => if x.isFinite then .real x else .null
  | .string text => .string text
  | .array _ items => .array (documentItems items)
  | .object _ fields => .object (Keyed.ofList (documentFields fields))
  | .map _ entries => .object (Keyed.ofList (documentEntries entries))

/-- The documents of the items of a sequence. -/
def documentItems : List Value → List Document
  | [] => []
  | item :: items => document item :: documentItems items

/-- The documents of the fields of a record. -/
def documentFields : List (String × Value) → List (String × Document)
  | [] => []
  | (name, value) :: fields => (name, document value) :: documentFields fields

/-- The documents of the entries of a map, under the names that its keys give. -/
def documentEntries : List (Value × Value) → List (String × Document)
  | [] => []
  | (key, value) :: entries => (keyText key, document value) :: documentEntries entries

end

end Value

namespace Document

mutual

/-- The value that a document is read as. -/
def value : Document → Value
  | .null => .null
  | .bool b => .bool b
  | .integer n => .int n
  | .real x => .float x
  | .string text => .string text
  | .array items => .array .new (valueItems items)
  | .object fields => .object .new (Keyed.ofList (valueFields fields))

/-- The values of the items of a sequence. -/
def valueItems : List Document → List Value
  | [] => []
  | item :: items => value item :: valueItems items

/-- The values of the fields of a record. -/
def valueFields : List (String × Document) → List (String × Value)
  | [] => []
  | (name, document) :: fields => (name, value document) :: valueFields fields

end

end Document

end Stencil
