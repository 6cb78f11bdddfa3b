import Stencil.Source.Piece
import Stencil.Source.Params
import Stencil.Error

/-!
# Tokens of a template text

Each piece of a template text becomes a token: a literal text, or a tag with the bytes that it
takes. The first character inside a tag tells what it is for. One line break directly after a tag of
a block belongs to the tag, and comments leave no token behind.

## Main results

* `Token.ofPieces_run`: a run of text becomes one token.
-/

namespace Stencil.Source

/-- A tag of a template text. -/
inductive Tag where
  /-- Writes a value, escaped or as it is. -/
  | value (escaped : Bool) (params : List Param)
  /-- Opens a block, whose condition may be inverted. -/
  | opening (inverted : Bool) (params : List Param)
  /-- Starts the else branch of a block, or a block in its place. -/
  | branch (params : List Param)
  /-- Closes a block. -/
  | closing (name : String)
  /-- Calls a template by its name. -/
  | template (params : List Param)
  | comment
  deriving Inhabited

/-- Whether a line break directly after the tag belongs to it. -/
def Tag.eatsLineBreak : Tag → Bool
  | .opening .. | .branch _ | .closing _ => true
  | .value .. | .template _ | .comment => false

/-- A token of a template text. -/
inductive Token where
  | text (text : String)
  | tag (tag : Tag) (span : Span)
  deriving Inhabited

/-! ### Tags -/

/-- The contents of a tag without a trim mark at either end and the white space around the rest. -/
def withoutMarks (contents : List Char) : List Char :=
  let contents := match contents with
    | '~' :: rest => rest
    | cs => cs
  let contents := if contents.getLast? = some '~' then contents.dropLast else contents
  Text.trim contents

/-- The parameters that the words of a tag spell. -/
def paramsOf (words : List Char) : Except Malformed (List Param) :=
  match Param.readAll? words with
  | some params => .ok params
  | none => .error (.contents (String.ofList (Text.trim words)))

/-- Whether words that follow `else` leave it a word of its own. -/
def endsWord : List Char → Bool
  | [] => true
  | c :: _ => Text.isBlank c

/-- The tag with the given contents. -/
def Tag.ofContents (contents : List Char) : Except Malformed Tag :=
  let inner := withoutMarks contents
  let plain := (paramsOf inner).map (.value true)
  match inner with
  | '!' :: _ => .ok .comment
  | '#' :: words => (paramsOf words).map (.opening false)
  | '^' :: words =>
    if (Text.trim words).isEmpty then .ok (.branch [])
    else (paramsOf words).map (.opening true)
  | '/' :: words => .ok (.closing (String.ofList (Text.trim words)))
  | '>' :: words => (paramsOf words).map .template
  | '&' :: words => (paramsOf words).map (.value false)
  | 'e' :: 'l' :: 's' :: 'e' :: words =>
    if endsWord words then (paramsOf words).map .branch else plain
  | _ => plain

/-- The tag that a piece is, unless it is a run of text. -/
def Piece.tag? : Piece → Option (Except Malformed Tag)
  | .run _ => none
  | .tag contents => some (Tag.ofContents contents)
  | .rawTag contents => some ((paramsOf (withoutMarks contents)).map (.value false))
  | .comment .. => some (.ok .comment)
  | .unclosedTag _ => some (.error .unclosedTag)
  | .unclosedRawTag _ => some (.error .unclosedRawTag)
  | .unclosedComment _ => some (.error .unclosedComment)

/-! ### Tokens -/

/-- The text without the line break it starts with. -/
def withoutLineBreak : List Char → List Char
  | '\r' :: '\n' :: cs => cs
  | '\n' :: cs => cs
  | cs => cs

/-- The token of a run of text, unless nothing is left of it. -/
def textTokens (cs : List Char) : List Token :=
  if cs.isEmpty then [] else [.text (String.ofList cs)]

/-- The tokens of the pieces that start `offset` bytes into the text. A line break at the start of
the next run is dropped while `eating`. Of several malformed tags the first one is reported. -/
def Token.ofPieces (offset : Nat) (eating : Bool) : List Piece → Except Fault (List Token)
  | [] => .ok []
  | piece :: pieces =>
    let next := offset + Text.byteSize piece.text
    let span := Span.ofBytes offset next
    match piece.tag? with
    | none => do
      let tokens ← ofPieces next false pieces
      return textTokens (if eating then withoutLineBreak piece.text else piece.text) ++ tokens
    | some (.error cause) => .error ⟨cause, span⟩
    | some (.ok .comment) => ofPieces next eating pieces
    | some (.ok t) => do
      let tokens ← ofPieces next t.eatsLineBreak pieces
      return .tag t span :: tokens

/-- The tokens of a template text. -/
def Token.ofText (source : String) : Except Fault (List Token) :=
  ofPieces 0 false (cut source.toList)

/-- A run of text becomes one token, with the tokens of what follows. -/
theorem Token.ofPieces_run (offset : Nat) (text : List Char) (pieces : List Piece) :
    ofPieces offset false (.run text :: pieces) =
      (ofPieces (offset + Text.byteSize text) false pieces).map (textTokens text ++ ·) := by
  simp only [ofPieces, Piece.tag?, Piece.text]
  cases ofPieces (offset + Text.byteSize text) false pieces <;> rfl

end Stencil.Source
