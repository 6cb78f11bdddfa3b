import Stencil.Text.CaseTable
import Stencil.Text.CaseContext

/-!
# Small and capital letters

Whole texts are mapped between their small and their capital letters by the full case mappings of
Unicode, in which one character may become several. The capital sigma is the one letter whose
small form depends on where it stands: at the end of a word it is the final sigma.
-/

namespace Stencil.Text

/-- The image of `n` under the first run that holds it. -/
def shifted (runs : List CaseTable.Run) (n : Nat) : Option Nat :=
  runs.findSome? (·.image? n)

/-- The image of a character: its expansion, its counterpart, or the character itself. -/
def mapCase (runs : List CaseTable.Run) (expansions : List (Nat × List Nat)) (c : Char) :
    List Char :=
  match expansions.lookup c.toNat with
  | some ns => ns.map Char.ofNat
  | none => [(shifted runs c.toNat).elim c Char.ofNat]

/-- The small form of a character that stands alone. -/
def lowerChar (c : Char) : List Char :=
  mapCase CaseTable.lowerRuns CaseTable.lowerExpansions c

/-- The capital form of a character. -/
def upperChar (c : Char) : List Char :=
  mapCase CaseTable.upperRuns CaseTable.upperExpansions c

/-- Whether the nearest character of the text that is not looked past has a case. -/
def reachesCased (cs : List Char) : Bool :=
  match cs.dropWhile CharSet.caseIgnorable.contains with
  | [] => false
  | c :: _ => CharSet.cased.contains c

/-- The small form of a text, whose characters before it, the nearest first, are `before`. -/
def lowerAfter (before : List Char) : List Char → List Char
  | [] => []
  | c :: rest =>
    (if c = 'Σ' then
      [if reachesCased before && !reachesCased rest then 'ς' else 'σ']
     else lowerChar c) ++ lowerAfter (c :: before) rest

/-- The text in small letters. -/
def toLower (text : String) : String :=
  String.ofList (lowerAfter [] text.toList)

/-- The text in capital letters. -/
def toUpper (text : String) : String :=
  String.ofList (text.toList.flatMap upperChar)

end Stencil.Text
