import Stencil.Text.Whitespace
import Stencil.Text.Split

/-!
# Folding lines

Before a template text is read, its lines are folded: a line that holds nothing but a block tag is
joined to its neighbours, so that the structure of a template leaves no blank lines in its output.
An opening tag after a line of text is set off by a mark that stands for a line break, and an else
tag is held back until the line after it is known. Then the white space beside trim marks is
removed, and the marks with it.
-/

namespace Stencil.Source

/-! ### Kinds of lines -/

/-- What a line is for the folding. -/
inductive LineKind where
  /-- Nothing but a tag that opens a block. -/
  | opening
  /-- Nothing but a tag that closes a block. -/
  | closing
  /-- Nothing but an else tag. -/
  | branch
  /-- Everything else. -/
  | text
  deriving DecidableEq, Repr

/-- What follows the two braces that a line starts with, and a trim mark after them, when the line
ends with two braces. -/
def tagLine? (line : List Char) : Option (List Char) :=
  match line with
  | '\x7b' :: '\x7b' :: rest =>
    if ['\x7d', '\x7d'].isSuffixOf line then
      some (match rest with
        | '~' :: rest => rest
        | rest => rest)
    else none
  | _ => none

/-- The kind of a line without the white space around it. An opening tag starts with `#` and a
closing tag with `/`; an else tag starts with `else` or is a lone `^`. -/
def lineKind (line : List Char) : LineKind :=
  match tagLine? line with
  | some ('#' :: _) => .opening
  | some ('/' :: _) => .closing
  | some ('e' :: 'l' :: 's' :: 'e' :: _) => .branch
  | some ['^', '\x7d', '\x7d'] => .branch
  | some ['^', '~', '\x7d', '\x7d'] => .branch
  | _ => .text

/-! ### Joining lines -/

/-- What the folding remembers of the lines before. -/
structure Fold where
  /-- Whether anything has been written. -/
  started : Bool := false
  /-- Whether the line before was a closing tag. -/
  afterClosing : Bool := false
  /-- Whether there were only opening tags so far. -/
  onlyOpenings : Bool := true
  /-- An else tag that is held back. -/
  held : Option (List Char) := none

/-- The mark that stands for a line break. -/
def lineBreakMark : List Char :=
  "\x7b\x7bNEWLINE\x7d\x7d".toList

/-- A held else tag on a line of its own. -/
def heldLine (held : Option (List Char)) : List Char :=
  match held with
  | some tag => '\n' :: tag
  | none => []

/-- What comes between the lines before and a line that writes itself: a held else tag, or else the
given separator. -/
def Fold.join (fold : Fold) (separator : List Char) : List Char :=
  match fold.held with
  | some tag => '\n' :: tag
  | none => separator

/-- What one line writes, and what is remembered after it. -/
def Fold.step (fold : Fold) (line : List Char) : List Char × Fold :=
  let trimmed := Text.trim line
  match lineKind trimmed with
  | .opening =>
    let separator := if fold.started && !fold.onlyOpenings then lineBreakMark else []
    (fold.join separator ++ trimmed,
      { fold with started := true, afterClosing := false, held := none })
  | .closing =>
    let separator := if fold.afterClosing then [] else ['\n']
    (fold.join separator ++ trimmed,
      { started := true, afterClosing := true, onlyOpenings := false, held := none })
  | .branch =>
    (heldLine fold.held,
      { started := fold.started || fold.held.isSome, afterClosing := false, onlyOpenings := false,
        held := some trimmed })
  | .text =>
    let separator := if fold.started then ['\n'] else []
    let written := fold.join separator ++ line
    (written,
      { started := fold.started || !written.isEmpty, afterClosing := false, onlyOpenings := false,
        held := none })

/-- The folded lines. A held else tag is written after the last line. -/
def foldLines (fold : Fold) : List (List Char) → List Char
  | [] => heldLine fold.held
  | line :: lines =>
    let (written, fold') := fold.step line
    written ++ foldLines fold' lines

/-! ### Trim marks -/

/-- The text with the white space before every `~` that follows two opening braces removed, and
the marks with it. What is before the text, the nearest character first, is `before`. -/
def trimBefore (before : List Char) : List Char → List Char
  | '\x7b' :: '\x7b' :: '~' :: rest =>
    trimBefore ('\x7b' :: '\x7b' :: before.dropWhile Text.isBlank) rest
  | c :: rest => trimBefore (c :: before) rest
  | [] => before.reverse

/-- The text with the white space after every `~` that precedes two closing braces removed, and
the marks with it. White space is being removed while `trimming`. -/
def trimAfter (trimming : Bool) : List Char → List Char
  | '~' :: '\x7d' :: '\x7d' :: rest => '\x7d' :: '\x7d' :: trimAfter true rest
  | c :: rest =>
    if trimming && Text.isBlank c then trimAfter true rest else c :: trimAfter false rest
  | [] => []

/-- The text as it is read: its lines folded and its trim marks carried out. -/
def fold (text : String) : String :=
  let lines := Text.splitOn (· == '\n') text.toList
  String.ofList (trimAfter false (trimBefore [] (foldLines {} lines)))

end Stencil.Source
