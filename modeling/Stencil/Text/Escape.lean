import Stencil.Span

/-!
# Text inside markup

Five characters mean something to a reader of markup: the two quotes, the ampersand and the angle
brackets. In escaped text each of them is written as its entity, and every other character stands
for itself.

A text is escaped in one pass over its bytes, from the first of these characters on. What stands
between two of them is copied in one piece, and a text that has none of them is left as it is.

## Main results

* `escape_append`: a text is escaped piece by piece.
* `escape_of_isPlain`: a text without the five characters is left as it is.
-/

namespace Stencil.Markup

/-- The entity that stands for a character of markup. -/
def entity? : Char → Option (List Char)
  | '"' => some ['&', 'q', 'u', 'o', 't', ';']
  | '&' => some ['&', 'a', 'm', 'p', ';']
  | '\'' => some ['&', '#', '3', '9', ';']
  | '<' => some ['&', 'l', 't', ';']
  | '>' => some ['&', 'g', 't', ';']
  | _ => none

/-- A character as it is written in escaped text. -/
def escapeChar (c : Char) : List Char :=
  (entity? c).getD [c]

/-- A text as it is written inside markup. -/
def escape (cs : List Char) : List Char :=
  cs.flatMap escapeChar

/-- Whether a text holds nothing that has to be escaped. -/
def isPlain (cs : List Char) : Bool :=
  cs.all fun c => (entity? c).isNone

/-! ### One pass over the bytes -/

/-- The characters that mean something to a reader of markup. -/
def marks : List Char := ['"', '&', '\'', '<', '>']

/-- The number of bytes before the first of these characters. -/
def firstMark? : List Char → Option Nat
  | [] => none
  | c :: cs => if c ∈ marks then some 0 else (firstMark? cs).map (c.utf8Size + ·)

/-- The bytes of a text in UTF-8. -/
def bytes (cs : List Char) : List UInt8 :=
  cs.flatMap String.utf8EncodeChar

/-- The entity that stands for a byte of markup. -/
def entityOfByte? : UInt8 → Option (List Char)
  | 0x22 => entity? '"'
  | 0x26 => entity? '&'
  | 0x27 => entity? '\''
  | 0x3c => entity? '<'
  | 0x3e => entity? '>'
  | _ => none

/-- What a pass over a text has written, and the number of bytes of the text that this accounts
for. -/
structure Scan where
  written : List Char := []
  used : Nat := 0

/-- A byte of markup has what stands before it copied, and its entity written. Every other byte is
passed over. -/
def Scan.step (cs : List Char) (scan : Scan) (place : Nat) (byte : UInt8) : Option Scan :=
  match entityOfByte? byte with
  | some entity =>
    (Span.slice? scan.used place cs).map fun part => ⟨scan.written ++ part ++ entity, place + 1⟩
  | none => some scan

/-- The pass over bytes of a text of which the first one stands at `place`. -/
def Scan.run (cs : List Char) (scan : Scan) (place : Nat) : List UInt8 → Option Scan
  | [] => some scan
  | byte :: bytes => (scan.step cs place byte).bind fun scan => scan.run cs (place + 1) bytes

/-- What escaping makes of a text. -/
inductive Escaped where
  /-- There is nothing to escape, and the text is left as it is. -/
  | same
  /-- The text is written anew. -/
  | written (cs : List Char)
  deriving DecidableEq, Repr

/-- The pass over a text. It would fail at a cut inside of a character. -/
def scan? (cs : List Char) : Option Escaped :=
  match firstMark? cs with
  | none => some .same
  | some first => do
    let scan ← Scan.run cs {} first ((bytes cs).drop first)
    let rest ← Span.slice? scan.used (Text.byteSize cs) cs
    return .written (scan.written ++ rest)

/-- A text as it is written inside markup. -/
def escapeText (text : String) : String :=
  match scan? text.toList with
  | some (.written cs) => String.ofList cs
  | _ => text

/-! ### Escaping character by character -/

@[simp] theorem escape_nil : escape [] = [] := rfl

@[simp] theorem escape_cons (c : Char) (cs : List Char) :
    escape (c :: cs) = escapeChar c ++ escape cs := rfl

/-- A text is escaped piece by piece. -/
theorem escape_append (a b : List Char) : escape (a ++ b) = escape a ++ escape b :=
  List.flatMap_append

/-! ### Texts that stay as they are -/

/-- Plain text is escaped as itself. -/
theorem escape_of_isPlain {cs : List Char} (h : isPlain cs = true) : escape cs = cs := by
  induction cs with
  | nil => rfl
  | cons c cs ih =>
    simp only [isPlain, List.all_cons, Bool.and_eq_true, Option.isNone_iff_eq_none] at h
    simp [escapeChar, h.1, ih h.2]

end Stencil.Markup
