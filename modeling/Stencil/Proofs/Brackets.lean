import Stencil.Proofs.Grammar

/-!
# Block tags are nested

The block tags of a template text that can be read are properly nested. Without the else tags they
are brackets: every closing tag carries the name of the opening tag that it matches, and it is the
name of the first block where blocks are chained. An else tag ends the body of an open block, and
a lone one is the last of its block and of all the blocks that this one is chained to.

The statement is about the tags of the text, in their order, and not about what was made of them. It
follows from the grammar of tokens by forgetting what stands between block tags.

## Main results

* `Nested.brackets`: nested tags without their else tags are brackets.
* `read_properly_nested`: the block tags of a text that can be read are nested.
-/

namespace Stencil.Source

/-! ### The block tags of a text -/

/-- The tag of a block that a piece of a text is, if it is one. -/
def Piece.blockTag? (piece : Piece) : Option Tag :=
  match piece.tag? with
  | some (.ok t) => if t.eatsLineBreak then some t else none
  | _ => none

/-- The opening tags, else tags and closing tags of a text, in their order. -/
def blockTags (source : String) : List Tag :=
  (cut source.toList).filterMap Piece.blockTag?

/-- The tag of a block that a token is, if it is one. -/
def Sign.blockTag? : Sign → Option Tag
  | .tag t => if t.eatsLineBreak then some t else none
  | .text _ => none

@[simp] theorem Sign.blockTag?_opening (inverted : Bool) (params : List Param) :
    blockTag? (.tag (.opening inverted params)) = some (.opening inverted params) :=
  rfl

@[simp] theorem Sign.blockTag?_branch (params : List Param) :
    blockTag? (.tag (.branch params)) = some (.branch params) :=
  rfl

@[simp] theorem Sign.blockTag?_closing (name : String) :
    blockTag? (.tag (.closing name)) = some (.closing name) :=
  rfl

/-- A run of text leaves no block tag behind. -/
theorem filterMap_textTokens (cs : List Char) (tokens : List Token) :
    ((textTokens cs ++ tokens).map Token.sign).filterMap Sign.blockTag? =
      (tokens.map Token.sign).filterMap Sign.blockTag? := by
  unfold textTokens
  split <;> rfl

/-- Whether a tag is an else tag. -/
def Tag.isBranch : Tag → Bool
  | .branch _ => true
  | _ => false

@[simp] theorem Tag.isBranch_branch (params : List Param) : (branch params).isBranch = true :=
  rfl

@[simp] theorem Tag.isBranch_closing (name : String) : (closing name).isBranch = false :=
  rfl

/-- The tokens of pieces have the block tags of the pieces. -/
theorem Token.blockTags_ofPieces {offset : Nat} {eating : Bool} {pieces : List Piece}
    {tokens : List Token} (h : ofPieces offset eating pieces = .ok tokens) :
    (tokens.map sign).filterMap Sign.blockTag? = pieces.filterMap Piece.blockTag? := by
  induction pieces generalizing offset eating tokens with
  | nil =>
    obtain rfl := Except.ok.inj h
    rfl
  | cons piece pieces ih =>
    unfold ofPieces at h
    dsimp only at h
    split at h
    · next hp =>
      obtain ⟨rest, hr, h⟩ := bind_eq_ok.mp h
      obtain rfl := Except.ok.inj h
      have hn : piece.blockTag? = none := by simp [Piece.blockTag?, hp]
      rw [List.filterMap_cons_none hn, ← ih hr, filterMap_textTokens]
    · cases h
    · next hp =>
      have hn : piece.blockTag? = none := by simp [Piece.blockTag?, hp, Tag.eatsLineBreak]
      rw [List.filterMap_cons_none hn, ← ih h]
    · next t _ hp =>
      obtain ⟨rest, hr, h⟩ := bind_eq_ok.mp h
      obtain rfl := Except.ok.inj h
      rw [List.map_cons, List.filterMap_cons, List.filterMap_cons, ih hr]
      simp only [Piece.blockTag?, hp, Token.sign, Sign.blockTag?]

/-! ### Nested tags -/

mutual

/-- Properly nested block tags. Each opening tag is followed by what belongs to its block. -/
inductive Nested : List Tag → Prop where
  | nil : Nested []
  | block {inverted head args tail tags} (block : NestedBlock inverted head head tail)
    (rest : Nested tags) :
    Nested (.opening inverted (.plain (.path head) :: args) :: (tail ++ tags))

/-- What belongs to a block with the given head, after the tag that opens it, up to and with the
closing tag that carries the name `closer`. After its body stands that closing tag, or a lone else
tag and one more body before the closing tag, or an else tag that opens a chained block, which the
closing tag belongs to as well. -/
inductive NestedBlock : Bool → String → String → List Tag → Prop where
  | closed {inverted head closer body} (nested : Nested body) :
    NestedBlock inverted head closer (body ++ [.closing closer])
  | branched {inverted head closer body branch}
    (takes : inverted = false → head ≠ "with" ∧ head ≠ "inline") (nested : Nested body)
    (other : Nested branch) :
    NestedBlock inverted head closer (body ++ .branch [] :: (branch ++ [.closing closer]))
  | chained {inverted head head' args closer body tail}
    (takes : inverted = false → head ≠ "with" ∧ head ≠ "inline") (nested : Nested body)
    (chain : NestedBlock false head' closer tail) :
    NestedBlock inverted head closer (body ++ .branch (.plain (.path head') :: args) :: tail)

end

/-- Opening and closing tags that match like brackets, where a closing tag carries the name that its
opening tag starts with. -/
inductive Brackets : List Tag → Prop where
  | nil : Brackets []
  | pair {inverted head args inner rest} (inside : Brackets inner) (after : Brackets rest) :
    Brackets (.opening inverted (.plain (.path head) :: args) :: (inner ++ .closing head :: rest))

/-- Nested brackets are nested side by side. -/
theorem Brackets.append {a b : List Tag} (ha : Brackets a) (hb : Brackets b) :
    Brackets (a ++ b) := by
  induction ha with
  | nil => exact hb
  | pair inside after _ ih =>
    rw [List.cons_append, List.append_assoc, List.cons_append]
    exact .pair inside ih

mutual

/-- Nested tags without their else tags are brackets. -/
theorem Nested.brackets {tags : List Tag} (h : Nested tags) :
    Brackets (tags.filter (!·.isBranch)) := by
  match h with
  | .nil => exact .nil
  | .block inner rest =>
    obtain ⟨inside, hi, ht⟩ := inner.brackets
    rw [List.filter_cons_of_pos rfl, List.filter_append, ht, List.append_assoc]
    exact .pair hi rest.brackets

/-- What belongs to a block is brackets before the closing tag. -/
theorem NestedBlock.brackets {inverted : Bool} {head closer : String} {tail : List Tag}
    (h : NestedBlock inverted head closer tail) :
    ∃ inside, Brackets inside ∧ tail.filter (!·.isBranch) = inside ++ [.closing closer] := by
  match h with
  | .closed nested => exact ⟨_, nested.brackets, by simp⟩
  | .branched _ nested other =>
    exact ⟨_, nested.brackets.append other.brackets, by simp⟩
  | .chained _ nested chain =>
    obtain ⟨inside, hi, ht⟩ := chain.brackets
    exact ⟨_, nested.brackets.append hi, by simp [ht]⟩

end

/-! ### From the grammar to nested tags -/

mutual

/-- The block tags of a body are nested. -/
theorem Spells.nested {signs : List Sign} {nodes : List Node} (h : Spells signs nodes) :
    Nested (signs.filterMap Sign.blockTag?) := by
  match h with
  | .nil => exact .nil
  | .text _ rest => exact rest.nested
  | .value _ rest => exact rest.nested
  | .template _ rest => exact rest.nested
  | .comment rest => exact rest.nested
  | .block inner rest =>
    rw [List.filterMap_cons_some (Sign.blockTag?_opening ..), List.filterMap_append]
    exact .block inner.nested rest.nested

/-- The block tags of the rest of a block are nested. -/
theorem SpellsBlock.nested {o : Opener} {closer : String} {signs : List Sign} {body : List Node}
    {branch : Option (List Node)} (h : SpellsBlock o closer signs body branch) :
    NestedBlock o.inverted o.head closer (signs.filterMap Sign.blockTag?) := by
  match h with
  | .closed _ inner =>
    rw [List.filterMap_append]
    exact .closed inner.nested
  | .branched _ takes inner other =>
    rw [List.filterMap_append, List.filterMap_cons_some (Sign.blockTag?_branch _),
      List.filterMap_append]
    exact .branched takes inner.nested other.nested
  | .chained _ takes inner plain chain =>
    rw [List.filterMap_append, List.filterMap_cons_some (Sign.blockTag?_branch _)]
    exact .chained takes inner.nested (plain ▸ chain.nested)

end

/-- The block tags of a text that can be read are nested, whatever the options are and whichever
names are operations: the opening and closing tags are brackets with matching names, and every else
tag ends the body of an open block that may have an else branch and has none so far. -/
theorem read_properly_nested {source : String} {options : Options} {isOperation : String → Bool}
    {e : Expr} (h : read source options isOperation = .ok e) :
    Brackets ((blockTags source).filter (!·.isBranch)) ∧ Nested (blockTags source) := by
  obtain ⟨tokens, nodes, ht, hn, -⟩ := read_eq_ok.mp h
  have nested := (Spells.of_ofTokens hn).nested
  rw [Token.blockTags_ofPieces ht] at nested
  exact ⟨nested.brackets, nested⟩

/-- A block inside of a block, and a chained block with a lone else tag after it. -/
theorem read_properly_nested_chain :
    let source := "\x7b\x7b#if a\x7d\x7d\x7b\x7b#b\x7d\x7d1\x7b\x7b/b\x7d\x7d" ++
      "\x7b\x7belse if c\x7d\x7d2\x7b\x7belse\x7d\x7d3\x7b\x7b/if\x7d\x7d"
    let e : Expr := .call "if" [.path (.ofText "a"),
      .call "section" [.path (.ofText "b"), .text "1"], .path (.ofText "c"), .text "2", .text "3"]
    read source {} (fun _ => false) = .ok e ∧
      Brackets ((blockTags source).filter (!·.isBranch)) ∧ Nested (blockTags source) := by
  intro source e
  have hc : cut source.toList =
      [.tag ['#', 'i', 'f', ' ', 'a'], .tag ['#', 'b'], .run ['1'], .tag ['/', 'b'],
        .tag ['e', 'l', 's', 'e', ' ', 'i', 'f', ' ', 'c'], .run ['2'], .tag ['e', 'l', 's', 'e'],
        .run ['3'], .tag ['/', 'i', 'f']] := by decide
  have ht : Token.ofText source = .ok
      [.tag (.opening false [.plain (.path "if"), .plain (.path "a")]) ⟨0, 9⟩,
        .tag (.opening false [.plain (.path "b")]) ⟨9, 15⟩, .text "1", .tag (.closing "b") ⟨16, 22⟩,
        .tag (.branch [.plain (.path "if"), .plain (.path "c")]) ⟨22, 35⟩, .text "2",
        .tag (.branch []) ⟨36, 44⟩, .text "3", .tag (.closing "if") ⟨45, 52⟩] := by
    rw [Token.ofText, hc]
    rfl
  have h : read source {} (fun _ => false) = .ok e := read_eq_ok.mpr ⟨_, _, ht, rfl, rfl⟩
  exact ⟨h, read_properly_nested h⟩

end Stencil.Source
