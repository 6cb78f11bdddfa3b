import Stencil.Value.Compare
import Stencil.Text.Alphanumeric

/-!
# The words of a tag

Inside its braces a tag is a list of parameters: terms, named terms, and the parameters of a block
between two bars. A term is a quoted text, a list of parameters in parentheses, or a word; words
that spell a number, a boolean or `null` are literals, and the others are paths.

The readers are structural on a budget of steps, which is fixed from the length of the text: each
step uses up a character or hands over to a step that does.
-/

namespace Stencil

mutual

/-- What a parameter of a tag can be. -/
inductive Term where
  | literal (value : Value)
  | path (text : String)
  /-- A list of parameters in parentheses. -/
  | group (params : List Param)

/-- A parameter of a tag. -/
inductive Param where
  | plain (term : Term)
  | named (name : String) (term : Term)
  /-- The parameters of a block, between two bars. -/
  | block (names : List String)

end

instance : Inhabited Term := ⟨.literal .null⟩

instance : Inhabited Param := ⟨.plain default⟩

namespace Term

/-- Whether a character may stand in a word. -/
def isWordChar (c : Char) : Bool :=
  !Text.isBlank c && !(['=', '(', ')', '|', '"', '\'', '~', '\x7b', '\x7d'].contains c)

/-- Whether a word starts like a number: with a digit, or with a minus and a digit. -/
def startsNumber : List Char → Bool
  | '-' :: d :: _ => d.isDigit
  | d :: _ => d.isDigit
  | [] => false

/-- The term that a word spells. -/
def ofWord (word : List Char) : Term :=
  match String.ofList word with
  | "true" => .literal (.bool true)
  | "false" => .literal (.bool false)
  | "null" | "undefined" => .literal .null
  | text =>
    if startsNumber word then
      match Number.wordOfText? word with
      | some n => .literal (.int n)
      | none =>
        match Number.ofText? word with
        | some x => .literal (.float x)
        | none => .path text
    else .path text

end Term

namespace Param

/-- Whether a character may stand in the name of a block parameter. -/
def isNameChar (c : Char) : Bool :=
  CharSet.alphanumeric.contains c || c == '_' || c == '-' || c == '$'

/-- The text without the gap it starts with. -/
def skipGap (cs : List Char) : List Char :=
  cs.dropWhile Text.isGap

/-- Reads the names of block parameters up to the closing bar: the names, and the rest. -/
def names? : Nat → List Char → Option (List String × List Char)
  | 0, _ => none
  | budget + 1, cs =>
    match skipGap cs with
    | '|' :: rest => some ([], rest)
    | cs =>
      match cs.takeWhile isNameChar with
      | [] => none
      | name => do
        let (names, rest) ← names? budget (cs.dropWhile isNameChar)
        return (String.ofList name :: names, rest)

/-- Reads the block parameters that a text starts with: the word `as` and names between bars. -/
def block? (budget : Nat) : List Char → Option (List String × List Char)
  | 'a' :: 's' :: rest =>
    match skipGap rest with
    | '|' :: rest => names? budget rest
    | _ => none
  | _ => none

/-- Reads the word that a text starts with: the word, and the rest. -/
def word? (cs : List Char) : Option (List Char × List Char) :=
  match cs.takeWhile Term.isWordChar with
  | [] => none
  | word => some (word, cs.dropWhile Term.isWordChar)

/-- Reads the name of a named term, which an equals sign follows directly. -/
def name? (cs : List Char) : Option (String × List Char) :=
  match word? cs with
  | some (word, '=' :: rest) => some (String.ofList word, rest)
  | _ => none

/-- Reads a text up to the quote that closes it: the text, and the rest. -/
def quoted? (quote : Char) (cs : List Char) : Option (Term × List Char) :=
  match cs.dropWhile (· != quote) with
  | _ :: rest => some (.literal (.string (String.ofList (cs.takeWhile (· != quote)))), rest)
  | [] => none

mutual

/-- Reads the term that a text starts with: the term, and the rest. -/
def term? : Nat → List Char → Option (Term × List Char)
  | 0, _ => none
  | budget + 1, cs =>
    match cs with
    | '(' :: rest => do
      let (params, rest) ← params? budget rest
      match rest with
      | ')' :: rest => return (.group params, rest)
      | _ => none
    | '"' :: rest => quoted? '"' rest
    | '\'' :: rest => quoted? '\'' rest
    | cs => (word? cs).map fun (word, rest) => (Term.ofWord word, rest)

/-- Reads parameters up to the end of the text or to a closing parenthesis: the parameters, and
the rest. -/
def params? : Nat → List Char → Option (List Param × List Char)
  | 0, _ => none
  | budget + 1, cs =>
    match skipGap cs with
    | [] => some ([], [])
    | ')' :: rest => some ([], ')' :: rest)
    | cs =>
      match block? budget cs with
      | some (names, rest) => do
        let (params, rest) ← params? budget rest
        return (.block names :: params, rest)
      | none =>
        match name? cs with
        | some (name, rest) => do
          let (term, rest) ← term? budget (skipGap rest)
          let (params, rest) ← params? budget rest
          return (.named name term :: params, rest)
        | none => do
          let (term, rest) ← term? budget cs
          let (params, rest) ← params? budget rest
          return (.plain term :: params, rest)

end

/-- Reads the parameters that a text holds, when it holds nothing else. -/
def readAll? (cs : List Char) : Option (List Param) :=
  match params? (2 * cs.length + 2) cs with
  | some (params, []) => some params
  | _ => none

end Param

end Stencil
