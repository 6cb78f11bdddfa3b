import Stencil.Span

/-!
# Errors

What can go wrong is told apart by its cause, and every cause has one text. A template text can be
malformed, a name can be unknown, an operation may have to be awaited where nothing is awaited, a
value can be of the wrong kind, and a call can have the wrong number of arguments.
-/

namespace Stencil

/-- What is malformed about a template text. -/
inductive Malformed where
  /-- A tag that is never closed. -/
  | unclosedTag
  /-- A tag with three braces that is never closed. -/
  | unclosedRawTag
  /-- A comment that is never closed. -/
  | unclosedComment
  /-- The words of a tag cannot be read. -/
  | contents (words : String)
  /-- A tag without words. -/
  | emptyTag
  /-- A tag whose words start with something that cannot be called. -/
  | helperNameExpected
  /-- A call of a template without a name. -/
  | templateNameExpected
  /-- A call of a template with more than a context and named arguments. -/
  | templateArguments
  /-- A block tag without a name. -/
  | blockNameExpected
  /-- A conditional block without a condition. -/
  | conditionExpected (block : String)
  /-- A block without its closing tag. -/
  | unclosedBlock (block : String)
  /-- An else branch on a block that has none. -/
  | branchRefused (block : String)
  /-- A second else branch. -/
  | secondBranch
  /-- An else tag outside of all blocks. -/
  | strayBranch
  /-- A closing tag outside of all blocks. -/
  | strayClosing (block : String)
  /-- The closing tag of another block. -/
  | wrongClosing (expected found : String)
  deriving DecidableEq, Repr

/-- A tag as it stands in a message. -/
def shownTag (words : String) : String :=
  "\x7b\x7b" ++ words ++ "\x7d\x7d"

/-- The text of a syntax error. -/
def Malformed.message : Malformed → String
  | .unclosedTag => "Unclosed \x7b\x7b tag"
  | .unclosedRawTag => "Unclosed \x7b\x7b\x7b tag"
  | .unclosedComment => "Unclosed comment tag"
  | .contents words => "Invalid tag contents `" ++ words ++ "`"
  | .emptyTag => "Empty tag"
  | .helperNameExpected => "Expected a helper name"
  | .templateNameExpected => "Partial tag needs a template name"
  | .templateArguments => "Partials take one context and named arguments"
  | .blockNameExpected => "Block tag needs a name"
  | .conditionExpected block => shownTag ("#" ++ block) ++ " needs a condition"
  | .unclosedBlock block => "Unclosed block " ++ shownTag ("#" ++ block)
  | .branchRefused block => shownTag ("#" ++ block) ++ " does not accept an else block"
  | .secondBranch => "Unexpected " ++ shownTag "else" ++ " after the else branch"
  | .strayBranch => "Unexpected " ++ shownTag "else" ++ " outside of a block"
  | .strayClosing block => "Unexpected closing tag " ++ shownTag ("/" ++ block)
  | .wrongClosing expected found =>
    "Expected " ++ shownTag ("/" ++ expected) ++ " but found " ++ shownTag ("/" ++ found)

/-- A fault of a template text and the place where it shows. -/
structure Fault where
  cause : Malformed
  span : Span
  deriving DecidableEq, Repr

/-- A fault together with the text it was found in. -/
structure SyntaxError extends Fault where
  source : String
  deriving DecidableEq, Repr

/-- The line and the column of a syntax error, both counted from one. -/
def SyntaxError.lineColumn (e : SyntaxError) : Nat × Nat :=
  e.span.lineColumn e.source

/-- Why a value is of the wrong kind. -/
inductive TypeMismatch where
  /-- A method that takes a text was given something else. -/
  | textExpected (method found : String)
  /-- An upward read whose path is not a literal text. -/
  | pathExpected
  /-- A method's own words. -/
  | reported (message : String)
  deriving DecidableEq, Repr

/-- The text of a type mismatch. -/
def TypeMismatch.message : TypeMismatch → String
  | .textExpected method found => method ++ " expects a string, got " ++ found
  | .pathExpected => "rvar expects a literal path"
  | .reported message => message

/-- Why a call is refused. -/
inductive Misuse where
  /-- A loop with a number of positional arguments other than two or three. -/
  | loopArguments (block : String) (count : Nat)
  /-- A context block with no body, or with more than a value and a body. -/
  | contextArguments
  /-- The definition of a template without exactly a name and a body. -/
  | definitionArguments
  /-- A call of a template without a name. -/
  | templateName
  /-- A method's own words. -/
  | reported (message : String)
  deriving DecidableEq, Repr

/-- The text of a refused call. -/
def Misuse.message : Misuse → String
  | .loopArguments block count =>
    shownTag ("#" ++ block) ++ " takes one value and a body, got " ++ toString count ++
      " positional arguments"
  | .contextArguments => shownTag "#with" ++ " takes at most one value and a body"
  | .definitionArguments => shownTag "#inline" ++ " takes a name and a body"
  | .templateName => "partial needs a template name"
  | .reported message => message

/-- What can go wrong between a template text and its output. -/
inductive Error where
  /-- The template text is malformed. -/
  | malformed (error : SyntaxError)
  /-- No operation has this name. -/
  | unknownOperation (name : String)
  /-- No template has this name. -/
  | templateNotFound (name : String)
  /-- An operation that has to be awaited was met where nothing is awaited. -/
  | awaitRequired (name : String)
  /-- A value is of the wrong kind. -/
  | mismatch (cause : TypeMismatch)
  /-- A call is refused. -/
  | misuse (cause : Misuse)
  deriving DecidableEq, Repr

/-- The text of an error. -/
def Error.message : Error → String
  | .malformed error => "Syntax error: " ++ error.cause.message
  | .unknownOperation name => "Unknown operation: " ++ name
  | .templateNotFound name => "Template " ++ name ++ " not found"
  | .awaitRequired name => "Operation `" ++ name ++ "` has no synchronous evaluator"
  | .mismatch cause => "Type error: " ++ cause.message
  | .misuse cause => "Generic error: " ++ cause.message

end Stencil
