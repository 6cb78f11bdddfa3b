import Stencil.Source.Token

/-!
# Nodes of a template

The tokens of a template text are gathered into nodes: texts, written values, calls of helpers and
of templates, and blocks with their bodies and else branches. Tokens are taken in one after the
other, while the blocks that are still open wait in a stack. An else tag with words opens a chained
block, which is all of the else branch of the block before it and shares its closing tag.

## Main results

* `Nesting.take_append`: taking in tokens after tokens.
-/

namespace Stencil.Source

/-- A node of a template. -/
inductive Node where
  | text (text : String)
  /-- A written value. -/
  | value (escaped : Bool) (term : Term)
  /-- A line break that folding has marked. -/
  | lineBreak
  /-- A written call of a helper. -/
  | helper (escaped : Bool) (name : String) (args : List Param)
  /-- A call of a template, with a context under the empty name and named arguments. -/
  | template (name : Term) (args : List (String × Term))
  /-- A block with its body and its else branch. -/
  | block (inverted : Bool) (head : String) (args : List Param) (body : List Node)
      (branch : Option (List Node))
  deriving Inhabited

/-! ### Single tags -/

/-- The node that writes a value. -/
def Node.ofValue (escaped : Bool) : List Param → Except Malformed Node
  | [.plain (.path "NEWLINE")] => .ok .lineBreak
  | [.plain term] => .ok (.value escaped term)
  | .plain (.path name) :: args => .ok (.helper escaped name args)
  | [] => .error .emptyTag
  | _ => .error .helperNameExpected

/-- The arguments of a call of a template. Only one of them may go without a name; it is the
context. -/
def templateArgs (hasContext : Bool) : List Param → Except Malformed (List (String × Term))
  | [] => .ok []
  | .named name term :: params => (templateArgs hasContext params).map ((name, term) :: ·)
  | .plain term :: params =>
    if hasContext then .error .templateArguments
    else (templateArgs true params).map (("", term) :: ·)
  | .block _ :: _ => .error .templateArguments

/-- The node that calls a template. -/
def Node.ofTemplate : List Param → Except Malformed Node
  | .plain name :: params => (templateArgs false params).map (.template name)
  | _ => .error .templateNameExpected

/-! ### Blocks -/

/-- A block that has not been closed. -/
structure OpenBlock where
  inverted : Bool
  head : String
  args : List Param
  /-- The tag that opened it. -/
  span : Span
  /-- The name that its closing tag carries. -/
  closer : String
  /-- Whether it is the else branch of the block below it in the stack. -/
  chained : Bool
  /-- The nodes of its body so far. -/
  body : List Node := []
  /-- The nodes of its else branch so far, once there is one. -/
  branch : Option (List Node) := none

namespace OpenBlock

/-- Adds a node to the part of the block that is being gathered. -/
def add (b : OpenBlock) (node : Node) : OpenBlock :=
  match b.branch with
  | some nodes => { b with branch := some (nodes ++ [node]) }
  | none => { b with body := b.body ++ [node] }

/-- The blocks that have to have a condition. -/
def isConditional (b : OpenBlock) : Bool :=
  !b.inverted && (b.head == "if" || b.head == "unless")

/-- The blocks that cannot have an else branch. -/
def refusesBranch (b : OpenBlock) : Bool :=
  !b.inverted && (b.head == "with" || b.head == "inline")

/-- Ends the body of the block, which shows whether a condition is missing. -/
def endBody (b : OpenBlock) : Except Fault Unit :=
  match b.branch, b.args with
  | none, .plain _ :: _ => .ok ()
  | none, _ => if b.isConditional then .error ⟨.conditionExpected b.head, b.span⟩ else .ok ()
  | some _, _ => .ok ()

/-- The node of the block, unless it has a branch that it refuses. -/
def toNode (b : OpenBlock) : Except Fault Node :=
  if b.refusesBranch && b.branch.isSome then .error ⟨.branchRefused b.head, b.span⟩
  else .ok (.block b.inverted b.head b.args b.body b.branch)

/-- Closes a block, and with it every block whose else branch it is: the node of the outermost of
them, and the blocks around it. -/
def close (b : OpenBlock) : List OpenBlock → Except Fault (Node × List OpenBlock)
  | [] => do return (← b.toNode, [])
  | outer :: others => do
    let node ← b.toNode
    let whole := { outer with branch := some [node] }
    if b.chained then whole.close others else return (node, outer :: others)

/-- The block that a tag opens. A chained block is closed by the closing tag of the block before
it. -/
def ofParams (inverted : Bool) (params : List Param) (span : Span) (closer : Option String) :
    Except Fault OpenBlock :=
  match params with
  | .plain (.path head) :: args =>
    .ok { inverted, head, args, span, closer := closer.getD head, chained := closer.isSome }
  | _ => .error ⟨.blockNameExpected, span⟩

end OpenBlock

/-- What has been gathered from some tokens: the finished nodes outside of blocks, and the blocks
that are still open, the innermost first. -/
structure Nesting where
  nodes : List Node := []
  blocks : List OpenBlock := []

namespace Nesting

/-- Adds a node to the innermost open block. -/
def add (n : Nesting) (node : Node) : Nesting :=
  match n.blocks with
  | [] => { n with nodes := n.nodes ++ [node] }
  | b :: bs => { n with blocks := b.add node :: bs }

/-- Takes in the node of a tag, or reports what is malformed about it. -/
def addNode (n : Nesting) (span : Span) : Except Malformed Node → Except Fault Nesting
  | .ok node => .ok (n.add node)
  | .error cause => .error ⟨cause, span⟩

/-- Takes in an else tag. -/
def addBranch (n : Nesting) (params : List Param) (span : Span) : Except Fault Nesting :=
  match n.blocks with
  | [] => .error ⟨.strayBranch, span⟩
  | b :: bs =>
    if b.branch.isSome then .error ⟨.secondBranch, span⟩
    else do
      b.endBody
      if params.isEmpty then return { n with blocks := { b with branch := some [] } :: bs }
      else
        let chained ← OpenBlock.ofParams false params span b.closer
        return { n with blocks := chained :: b :: bs }

/-- Takes in a closing tag. -/
def addClosing (n : Nesting) (name : String) (span : Span) : Except Fault Nesting :=
  match n.blocks with
  | [] => .error ⟨.strayClosing name, span⟩
  | b :: bs => do
    b.endBody
    if name = b.closer then
      let (node, outer) ← b.close bs
      return { n with blocks := outer }.add node
    else throw ⟨.wrongClosing b.closer name, span⟩

/-- Takes in a token. -/
def push (n : Nesting) : Token → Except Fault Nesting
  | .text text => .ok (n.add (.text text))
  | .tag (.value escaped params) span => n.addNode span (Node.ofValue escaped params)
  | .tag (.template params) span => n.addNode span (Node.ofTemplate params)
  | .tag (.opening inverted params) span => do
    let block ← OpenBlock.ofParams inverted params span none
    return { n with blocks := block :: n.blocks }
  | .tag (.branch params) span => n.addBranch params span
  | .tag (.closing name) span => n.addClosing name span
  | .tag .comment _ => .ok n

/-- Takes in tokens one after the other. -/
def take (n : Nesting) (tokens : List Token) : Except Fault Nesting :=
  tokens.foldlM push n

/-- The nodes of a template, when every block has been closed. -/
def finish (n : Nesting) : Except Fault (List Node) :=
  match n.blocks with
  | [] => .ok n.nodes
  | b :: _ => do
    b.endBody
    throw ⟨.unclosedBlock b.closer, b.span⟩

/-- Taking in tokens after tokens. -/
theorem take_append (n : Nesting) (a b : List Token) :
    n.take (a ++ b) = (n.take a).bind (take · b) :=
  List.foldlM_append

end Nesting

/-- The nodes of a template. -/
def Node.ofTokens (tokens : List Token) : Except Fault (List Node) := do
  (← Nesting.take {} tokens).finish

end Stencil.Source
