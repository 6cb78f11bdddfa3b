import Stencil.Data.Number
import Stencil.Value.Compare

/-!
# Reading data texts

A data text spells a value: `null`, the booleans, numbers, quoted texts, sequences in brackets and
records in braces, with white space between them. Records keep the order of their fields; a
repeated name keeps its first place and takes its last value. Values nested more than 127 deep are
refused, and so is anything after the value.

The readers are structural on a budget of steps, which is fixed from the length of the text: each
step uses up a character or hands over to a step that does.
-/

namespace Stencil

namespace DataText

/-- The white space of data texts. -/
def isSpace (c : Char) : Bool :=
  c == ' ' || c == '\n' || c == '\t' || c == '\r'

/-- The text without the white space it starts with. -/
def skip (cs : List Char) : List Char :=
  cs.dropWhile isSpace

/-- The value of a hexadecimal digit. -/
def hexValue? (c : Char) : Option Nat :=
  if '0' ≤ c ∧ c ≤ '9' then some (c.toNat - '0'.toNat)
  else if 'a' ≤ c ∧ c ≤ 'f' then some (c.toNat - 'a'.toNat + 10)
  else if 'A' ≤ c ∧ c ≤ 'F' then some (c.toNat - 'A'.toNat + 10)
  else none

/-- Reads four hexadecimal digits. -/
def unit? : List Char → Option (Nat × List Char)
  | a :: b :: c :: d :: rest => do
    return ((((← hexValue? a) * 16 + (← hexValue? b)) * 16 + (← hexValue? c)) * 16 +
      (← hexValue? d), rest)
  | _ => none

/-- The character that a single letter after a backslash stands for. -/
def shortEscape? : Char → Option Char
  | '"' => some '"'
  | '\\' => some '\\'
  | '/' => some '/'
  | 'b' => some '\x08'
  | 'f' => some '\x0c'
  | 'n' => some '\n'
  | 'r' => some '\r'
  | 't' => some '\t'
  | _ => none

/-- Reads the code point after `\u`. Code points above the first plane are spelled as two
surrogates, which never stand alone. -/
def codePoint? (cs : List Char) : Option (Char × List Char) := do
  let (high, rest) ← unit? cs
  if high < 0xd800 || 0xdfff < high then return (Char.ofNat high, rest)
  if 0xdc00 ≤ high then none
  match rest with
  | '\\' :: 'u' :: rest =>
    let (low, rest) ← unit? rest
    if low < 0xdc00 || 0xdfff < low then none
    return (Char.ofNat (0x10000 + (high - 0xd800) * 0x400 + (low - 0xdc00)), rest)
  | _ => none

/-- Reads a quoted text after its opening quote: its characters, and the rest. -/
def quoted? : Nat → List Char → Option (List Char × List Char)
  | 0, _ => none
  | budget + 1, cs =>
    match cs with
    | [] => none
    | '"' :: rest => some ([], rest)
    | '\\' :: 'u' :: rest => do
      let (c, rest) ← codePoint? rest
      let (text, rest) ← quoted? budget rest
      return (c :: text, rest)
    | '\\' :: e :: rest => do
      let c ← shortEscape? e
      let (text, rest) ← quoted? budget rest
      return (c :: text, rest)
    | c :: rest => do
      if c == '\\' || c.toNat < 0x20 then none
      let (text, rest) ← quoted? budget rest
      return (c :: text, rest)

mutual

/-- Reads a value, of which at most `depth` levels are nested: the value, and the rest. -/
def value? : Nat → Nat → List Char → Option (Value × List Char)
  | 0, _, _ => none
  | budget + 1, depth, cs =>
    match skip cs with
    | 'n' :: 'u' :: 'l' :: 'l' :: rest => some (.null, rest)
    | 't' :: 'r' :: 'u' :: 'e' :: rest => some (.bool true, rest)
    | 'f' :: 'a' :: 'l' :: 's' :: 'e' :: rest => some (.bool false, rest)
    | '"' :: rest => do
      let (text, rest) ← quoted? budget rest
      return (.string (String.ofList text), rest)
    | '[' :: rest =>
      match depth with
      | 0 => none
      | depth + 1 =>
        match skip rest with
        | ']' :: rest => some (.array .new [], rest)
        | rest => do
          let (items, rest) ← items? budget depth rest
          return (.array .new items, rest)
    | '\x7b' :: rest =>
      match depth with
      | 0 => none
      | depth + 1 =>
        match skip rest with
        | '\x7d' :: rest => some (.object .new [], rest)
        | rest => do
          let (fields, rest) ← fields? budget depth rest
          return (.object .new (Keyed.ofList fields), rest)
    | rest => do
      let (n, rest) ← numeral? rest
      return (match n with | .int n => .int n | .float x => .float x, rest)

/-- Reads the items of a sequence that has some, up to its closing bracket. -/
def items? : Nat → Nat → List Char → Option (List Value × List Char)
  | 0, _, _ => none
  | budget + 1, depth, cs => do
    let (item, rest) ← value? budget depth cs
    match skip rest with
    | ']' :: rest => return ([item], rest)
    | ',' :: rest =>
      let (items, rest) ← items? budget depth rest
      return (item :: items, rest)
    | _ => none

/-- Reads the fields of a record that has some, up to its closing brace. -/
def fields? : Nat → Nat → List Char → Option (List (String × Value) × List Char)
  | 0, _, _ => none
  | budget + 1, depth, cs => do
    match skip cs with
    | '"' :: rest =>
      let (name, rest) ← quoted? budget rest
      match skip rest with
      | ':' :: rest =>
        let (value, rest) ← value? budget depth rest
        let field := (String.ofList name, value)
        match skip rest with
        | '\x7d' :: rest => return ([field], rest)
        | ',' :: rest =>
          let (fields, rest) ← fields? budget depth rest
          return (field :: fields, rest)
        | _ => none
      | _ => none
    | _ => none

end

/-- How deep values of a data text may be nested. -/
def maxDepth : Nat := 127

end DataText

/-- Reads the value that a data text spells. -/
def Value.ofData? (text : String) : Option Value := do
  let cs := text.toList
  let (value, rest) ← DataText.value? (2 * cs.length + 2) DataText.maxDepth cs
  if (DataText.skip rest).isEmpty then some value else none

end Stencil
