import Stencil.Text.Printable

/-!
# Quoted text

A literal text is shown between double quotes. A quote and a backslash get a backslash before
them, the four controls that have a short form get it, and a character that could not be told from
its neighbours is spelled out by its code point.
-/

namespace Stencil.Text

/-- Whether a character is shown as it is, the quote and the backslash apart. -/
def isShown (c : Char) : Bool :=
  !CharSet.unprintable.contains c && !CharSet.graphemeExtend.contains c

/-- The code point of a character in small hexadecimal digits, without leading zeros. -/
def hexDigits (c : Char) : List Char :=
  Nat.toDigits 16 c.toNat

/-- A character as it is written between quotes. -/
def quoteChar (c : Char) : List Char :=
  match c with
  | '\x00' => ['\\', '0']
  | '\t' => ['\\', 't']
  | '\r' => ['\\', 'r']
  | '\n' => ['\\', 'n']
  | '\\' => ['\\', '\\']
  | '"' => ['\\', '"']
  | c => if isShown c then [c] else ['\\', 'u', '\x7b'] ++ hexDigits c ++ ['\x7d']

/-- The text between double quotes. -/
def quote (text : String) : String :=
  String.ofList ('"' :: text.toList.flatMap quoteChar ++ ['"'])

end Stencil.Text
