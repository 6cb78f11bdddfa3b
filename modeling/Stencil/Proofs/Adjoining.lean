import Stencil.Proofs.Brackets
import Stencil.Proofs.Cutting
import Stencil.Engine

/-!
# Texts side by side

When a template text is put behind another one, each of the two should be read as it is on its own.
Three things stand in the way. A tag is searched for its end in all the text that follows, so that
an open comment or a brace at the end of the first text may reach into the second one. A line break
after the tag of a block belongs to the tag, even when it is the second text that starts with it.
And the two runs of text that meet become one token.

`Adjoins` asks for what keeps the first two from happening. The third is harmless: it changes the
tokens and the nodes, but only by joining two texts, so the parts of the whole body are those of
the two bodies, with the texts that meet joined.

## Main results

* `Sign.ofPieces_joinRuns`: the tokens of pieces side by side.
* `Spells.fuse`: bodies side by side, of which two texts meet, are a body.
* `read_append`: the expression of two texts side by side.
-/

namespace Stencil

namespace Source

/-! ### Tokens side by side -/

/-- The token of a run of text without its place, unless nothing is left of it. -/
def textSigns (cs : List Char) : List Sign :=
  if cs.isEmpty then [] else [.text (String.ofList cs)]

/-- The tokens of a piece without their places, unless its tag is malformed. A line break at the
start of a run is dropped while `eating`. -/
def Piece.signs? (eating : Bool) (piece : Piece) : Option (List Sign) :=
  match piece.tag? with
  | none => some (textSigns (if eating then withoutLineBreak piece.text else piece.text))
  | some (.error _) => none
  | some (.ok .comment) => some []
  | some (.ok t) => some [.tag t]

/-- Whether a piece is a comment. -/
def Piece.isComment (piece : Piece) : Bool :=
  match piece.tag? with
  | some (.ok .comment) => true
  | _ => false

/-- Whether a line break after a piece belongs to a tag, given whether one before the piece does. -/
def Piece.eats (eating : Bool) (piece : Piece) : Bool :=
  if piece.isComment then eating else piece.blockTag?.isSome

section Kinds

variable {piece : Piece} {t : Tag} {cause : Malformed}

/-- Only runs of text have no tag. -/
theorem Piece.tag?_eq_none : piece.tag? = none ↔ ∃ text, piece = .run text := by
  cases piece <;> simp [tag?]

/-- A run of text leaves one sign at most, and never eats a line break after it. -/
theorem Piece.of_run (h : piece.tag? = none) (eating : Bool) :
    piece.signs? eating =
        some (textSigns (if eating then withoutLineBreak piece.text else piece.text)) ∧
      piece.eats eating = false := by
  simp [signs?, eats, isComment, blockTag?, h]

/-- A malformed tag leaves no signs. -/
theorem Piece.of_malformed (h : piece.tag? = some (.error cause)) (eating : Bool) :
    piece.signs? eating = none := by
  simp [signs?, h]

/-- A comment leaves nothing, and leaves it open whether a line break is eaten. -/
theorem Piece.of_comment (h : piece.tag? = some (.ok .comment)) (eating : Bool) :
    piece.signs? eating = some [] ∧ piece.eats eating = eating := by
  simp [signs?, eats, isComment, h]

/-- A tag leaves itself, and eats a line break if it is one of a block. -/
theorem Piece.of_tag (h : piece.tag? = some (.ok t)) (ht : t ≠ .comment) (eating : Bool) :
    piece.signs? eating = some [.tag t] ∧ piece.eats eating = t.eatsLineBreak := by
  cases t with
  | comment => exact absurd rfl ht
  | _ => simp [signs?, eats, isComment, blockTag?, h, Tag.eatsLineBreak]

end Kinds

/-- The tokens of pieces without their places, unless a tag is malformed. -/
def Sign.ofPieces (eating : Bool) : List Piece → Option (List Sign)
  | [] => some []
  | piece :: pieces =>
    (piece.signs? eating).bind fun signs =>
      (ofPieces (piece.eats eating) pieces).map (signs ++ ·)

/-- The token of a run of text leaves its sign. -/
theorem map_sign_textTokens (cs : List Char) : (textTokens cs).map Token.sign = textSigns cs := by
  unfold textTokens textSigns
  split <;> rfl

/-- The places of tokens do not matter for what they are. -/
theorem Token.map_sign_ofPieces (offset : Nat) (eating : Bool) (pieces : List Piece) :
    (ofPieces offset eating pieces).toOption.map (·.map sign) = Sign.ofPieces eating pieces := by
  induction pieces generalizing offset eating with
  | nil => rfl
  | cons piece pieces ih =>
    rw [ofPieces, Sign.ofPieces]
    split
    · next h =>
      obtain ⟨hs, he⟩ := Piece.of_run h eating
      rw [hs, he, ← ih (offset + Text.byteSize piece.text), Option.bind_some]
      cases ofPieces (offset + Text.byteSize piece.text) false pieces with
      | error fault => rfl
      | ok tokens =>
        simp [Except.toOption, bind, Except.bind, pure, Except.pure, map_sign_textTokens]
    · next h => rw [Piece.of_malformed h]; rfl
    · next h =>
      obtain ⟨hs, he⟩ := Piece.of_comment h eating
      rw [hs, he, ← ih (offset + Text.byteSize piece.text), Option.bind_some]
      cases ofPieces (offset + Text.byteSize piece.text) eating pieces <;> rfl
    · next t ht h =>
      obtain ⟨hs, he⟩ := Piece.of_tag h ht eating
      rw [hs, he, ← ih (offset + Text.byteSize piece.text), Option.bind_some]
      cases ofPieces (offset + Text.byteSize piece.text) t.eatsLineBreak pieces <;> rfl

/-- A run of text is no tag. -/
theorem isRun_of_tag? {piece : Piece} {tag : Except Malformed Tag}
    (h : piece.tag? = some tag) : piece.isRun = false := by
  cases piece with
  | run text => cases h
  | _ => rfl

/-- The tokens of a piece that starts `offset` bytes into the text. A line break at the start of a
run is dropped while `eating`. -/
def Piece.tokens (offset : Nat) (eating : Bool) (piece : Piece) : Except Fault (List Token) :=
  let span := Span.ofBytes offset (offset + Text.byteSize piece.text)
  match piece.tag? with
  | none => .ok (textTokens (if eating then withoutLineBreak piece.text else piece.text))
  | some (.error cause) => .error ⟨cause, span⟩
  | some (.ok .comment) => .ok []
  | some (.ok t) => .ok [.tag t span]

/-- The tokens of pieces are those of the first one and then those of the others. -/
theorem Token.ofPieces_cons (offset : Nat) (eating : Bool) (piece : Piece) (pieces : List Piece) :
    ofPieces offset eating (piece :: pieces) =
      (piece.tokens offset eating).bind fun first =>
        (ofPieces (offset + Text.byteSize piece.text) (piece.eats eating) pieces).bind fun rest =>
          .ok (first ++ rest) := by
  rw [ofPieces, Piece.tokens]
  rcases ht : piece.tag? with _ | cause | t
  · rw [(Piece.of_run ht eating).2]
    rfl
  · rfl
  · by_cases hc : t = .comment
    · subst hc
      rw [(Piece.of_comment ht eating).2]
      cases ofPieces (offset + Text.byteSize piece.text) eating pieces <;> rfl
    · rw [(Piece.of_tag ht hc eating).2]
      cases t <;> first | rfl | exact absurd rfl hc

/-- The tokens of pieces after pieces. -/
theorem Token.ofPieces_append {offset : Nat} {eating : Bool} {pieces others : List Piece}
    {a b : List Token} (ha : ofPieces offset eating pieces = .ok a)
    (hb : ofPieces (offset + Text.byteSize (pieces.flatMap Piece.text))
      (pieces.foldl Piece.eats eating) others = .ok b) :
    ofPieces offset eating (pieces ++ others) = .ok (a ++ b) := by
  induction pieces generalizing offset eating a with
  | nil =>
    obtain rfl := Except.ok.inj ha
    exact hb
  | cons piece pieces ih =>
    rw [ofPieces_cons] at ha
    obtain ⟨first, hfirst, ha⟩ := bind_eq_ok.mp ha
    obtain ⟨rest, hrest, ha⟩ := bind_eq_ok.mp ha
    obtain rfl := Except.ok.inj ha
    rw [List.flatMap_cons, Text.byteSize_append, ← Nat.add_assoc] at hb
    rw [List.cons_append, ofPieces_cons, hfirst, Except.bind, ih hrest hb, Except.bind,
      List.append_assoc]

/-- Tokens of a text leave the signs of its pieces. -/
theorem Token.ofText_eq_ok {source : String} {signs : List Sign} :
    (∃ tokens, ofText source = .ok tokens ∧ tokens.map sign = signs) ↔
      Sign.ofPieces false (cut source.toList) = some signs := by
  rw [← map_sign_ofPieces 0, ofText]
  cases ofPieces 0 false (cut source.toList) <;> simp [Except.toOption]

/-! ### Text that goes on -/

/-- Tokens side by side, where a text at the end may go on with a text at the start. -/
inductive Fuses : List Sign → List Sign → List Sign → Prop where
  | apart (a b : List Sign) : Fuses a b (a ++ b)
  | fused (a : List Sign) (x y : String) (b : List Sign) :
    Fuses (a ++ [.text x]) (.text y :: b) (a ++ .text (x ++ y) :: b)

/-- Signs that fuse still do behind other signs. -/
theorem Fuses.prepend {a b c : List Sign} (h : Fuses a b c) (signs : List Sign) :
    Fuses (signs ++ a) b (signs ++ c) := by
  cases h with
  | apart => exact List.append_assoc signs a b ▸ .apart (signs ++ a) b
  | fused a x y b =>
    rw [← List.append_assoc, ← List.append_assoc]
    exact .fused (signs ++ a) x y b

/-- Two texts side by side fuse into one. -/
theorem fuses_textSigns (x y : List Char) (signs : List Sign) :
    Fuses (textSigns x) (textSigns y ++ signs) (textSigns (x ++ y) ++ signs) := by
  obtain _ | ⟨c, x⟩ := x
  · exact .apart [] _
  · obtain _ | ⟨d, y⟩ := y
    · rw [List.append_nil]
      exact .apart _ _
    · have hs : textSigns (c :: x ++ d :: y) =
          [.text (String.ofList (c :: x) ++ String.ofList (d :: y))] := by
        rw [← String.ofList_append]
        rfl
      rw [hs]
      exact .fused [] _ _ signs

/-- Whether a text starts with a line break. -/
def startsLine : List Char → Bool
  | '\n' :: _ => true
  | '\r' :: '\n' :: _ => true
  | _ => false

/-- Without a line break at its start a text stays as it is. -/
theorem withoutLineBreak_of_not_startsLine {cs : List Char} (h : startsLine cs = false) :
    withoutLineBreak cs = cs := by
  unfold withoutLineBreak
  split
  · simp [startsLine] at h
  · simp [startsLine] at h
  · rfl

/-- The line break at the start of a text is in the part of it that comes first. -/
theorem withoutLineBreak_append {x : List Char} (hx : x ≠ []) (hlast : x.getLast? ≠ some '\r')
    (y : List Char) : withoutLineBreak (x ++ y) = withoutLineBreak x ++ y := by
  by_cases hs : startsLine x = true
  · unfold startsLine at hs
    split at hs <;> first | rfl | cases hs
  · have hxy : startsLine (x ++ y) = false := by
      unfold startsLine
      split
      · next hm =>
        obtain ⟨c, x, rfl⟩ := List.exists_cons_of_ne_nil hx
        obtain ⟨rfl, -⟩ := List.cons.inj hm
        simp [startsLine] at hs
      · next hm =>
        obtain ⟨c, x, rfl⟩ := List.exists_cons_of_ne_nil hx
        obtain ⟨rfl, ht⟩ := List.cons.inj hm
        obtain _ | ⟨d, x⟩ := x
        · simp at hlast
        · obtain ⟨rfl, -⟩ := List.cons.inj ht
          simp [startsLine] at hs
      · rfl
    rw [withoutLineBreak_of_not_startsLine hxy,
      withoutLineBreak_of_not_startsLine (by simpa using hs)]

/-- What the first piece that is no comment is, if it is text. -/
def leadingText? (pieces : List Piece) : Option (List Char) :=
  match (pieces.filter (!·.isComment)).head? with
  | some (.run text) => some text
  | _ => none

/-- A line break is missed only where the pieces start with one. -/
theorem Token.ofPieces_eating {pieces : List Piece}
    (h : ∀ text ∈ leadingText? pieces, startsLine text = false) (offset : Nat) (eating : Bool) :
    ofPieces offset eating pieces = ofPieces offset false pieces := by
  induction pieces generalizing offset with
  | nil => rfl
  | cons piece pieces ih =>
    rw [ofPieces, ofPieces]
    rcases ht : piece.tag? with _ | cause | t
    · obtain ⟨text, rfl⟩ := Piece.tag?_eq_none.mp ht
      have hs : startsLine text = false := h text rfl
      simp only [Piece.text, withoutLineBreak_of_not_startsLine hs, ite_self]
    · rfl
    · by_cases hc : t = .comment
      · subst hc
        have hn : leadingText? (piece :: pieces) = leadingText? pieces := by
          simp [leadingText?, Piece.isComment, ht]
        exact ih (hn ▸ h) _
      · cases t with
        | comment => exact absurd rfl hc
        | _ => rfl

/-- Whether a line break is eaten plays no part where none starts the text. -/
theorem Sign.ofPieces_eating {pieces : List Piece}
    (h : ∀ text ∈ leadingText? pieces, startsLine text = false) (eating : Bool) :
    ofPieces eating pieces = ofPieces false pieces := by
  rw [← Token.map_sign_ofPieces 0, ← Token.map_sign_ofPieces 0, Token.ofPieces_eating h]

/-- Pieces side by side have the tokens of the one and those of the other side by side: a run of
text at the end goes on, and no line break is eaten in place of the first pieces. -/
theorem Sign.ofPieces_joinRuns {ps qs : List Piece} {eating : Bool} {a b : List Sign}
    (ha : ofPieces eating ps = some a) (hb : ofPieces false qs = some b)
    (hrun : ∀ x, ps.getLast? = some (.run x) → x ≠ [] ∧ x.getLast? ≠ some '\r')
    (heats : ps.foldl Piece.eats eating = true →
      ∀ text ∈ leadingText? qs, startsLine text = false) :
    ∃ signs, ofPieces eating (joinRuns ps qs) = some signs ∧ Fuses a b signs := by
  fun_induction joinRuns ps qs generalizing eating a with
  | case1 qs =>
    obtain rfl : [] = a := Option.some.inj ha
    refine ⟨b, ?_, .apart [] b⟩
    cases eating with
    | false => exact hb
    | true => rw [ofPieces_eating (heats rfl), hb]
  | case2 x y qs =>
    obtain ⟨hx, hlast⟩ := hrun x rfl
    rw [ofPieces, (Piece.of_run rfl eating).1, (Piece.of_run rfl eating).2, Option.bind_some]
      at ha ⊢
    rw [ofPieces, (Piece.of_run rfl false).1, (Piece.of_run rfl false).2, Option.bind_some] at hb
    obtain ⟨rest, hr, rfl⟩ := Option.map_eq_some_iff.mp hb
    obtain rfl := Option.some.inj ha
    rw [hr]
    refine ⟨_, rfl, ?_⟩
    simp only [List.append_nil, Bool.false_eq_true, if_false, Piece.text]
    cases eating with
    | false => exact fuses_textSigns x y rest
    | true =>
      simp only [if_true, withoutLineBreak_append hx hlast]
      exact fuses_textSigns (withoutLineBreak x) y rest
  | case3 piece pieces others hne ih =>
    rw [ofPieces] at ha ⊢
    obtain ⟨s, hs, ha⟩ := Option.bind_eq_some_iff.mp ha
    obtain ⟨rest, hr, rfl⟩ := Option.map_eq_some_iff.mp ha
    have hlast : ∀ x, pieces.getLast? = some (.run x) → x ≠ [] ∧ x.getLast? ≠ some '\r' := by
      intro x hx
      refine hrun x ?_
      cases pieces with
      | nil => simp at hx
      | cons p ps => rwa [List.getLast?_cons_cons]
    obtain ⟨joined, hj, fused⟩ := ih hr hb hlast heats
    exact ⟨s ++ joined, by rw [hs, hj]; rfl, fused.prepend s⟩

/-! ### Nodes side by side -/

/-- A block ends with its closing tag. -/
theorem SpellsBlock.exists_closing {o : Opener} {closer : String} {signs : List Sign}
    {body : List Node} {branch : Option (List Node)} (h : SpellsBlock o closer signs body branch) :
    ∃ inner, signs = inner ++ [.tag (.closing closer)] := by
  match branch, h with
  | _, .closed .. => exact ⟨_, rfl⟩
  | _, .branched .. => exact ⟨_, (List.append_assoc _ (_ :: _) _).symm⟩
  | _, .chained _ _ _ _ chain =>
    obtain ⟨inner, rfl⟩ := chain.exists_closing
    exact ⟨_, (List.append_assoc _ (_ :: inner) _).symm⟩

/-- The text at the end of a body is a node of its own. -/
theorem Spells.of_append_text {signs : List Sign} {nodes : List Node} (h : Spells signs nodes)
    {before : List Sign} {x : String} (hs : signs = before ++ [.text x]) :
    ∃ nodes', nodes = nodes' ++ [.text x] ∧ Spells before nodes' := by
  match h with
  | .nil => simp at hs
  | .text s rest =>
    rcases List.cons_eq_append_iff.mp hs with ⟨rfl, hr⟩ | ⟨before, rfl, hr⟩
    · obtain ⟨hx, rfl⟩ := List.cons.inj hr
      cases hx
      cases rest
      exact ⟨[], rfl, .nil⟩
    · obtain ⟨nodes', rfl, hb⟩ := rest.of_append_text hr
      exact ⟨_, rfl, .text s hb⟩
  | .value hv rest =>
    rcases List.cons_eq_append_iff.mp hs with ⟨rfl, hr⟩ | ⟨before, rfl, hr⟩
    · cases hr
    · obtain ⟨nodes', rfl, hb⟩ := rest.of_append_text hr
      exact ⟨_, rfl, .value hv hb⟩
  | .template hv rest =>
    rcases List.cons_eq_append_iff.mp hs with ⟨rfl, hr⟩ | ⟨before, rfl, hr⟩
    · cases hr
    · obtain ⟨nodes', rfl, hb⟩ := rest.of_append_text hr
      exact ⟨_, rfl, .template hv hb⟩
  | .comment rest =>
    rcases List.cons_eq_append_iff.mp hs with ⟨rfl, hr⟩ | ⟨before, rfl, hr⟩
    · cases hr
    · obtain ⟨nodes', rfl, hb⟩ := rest.of_append_text hr
      exact ⟨nodes', rfl, .comment hb⟩
  | @Spells.block _ _ _ _ others _ inner rest =>
    rcases List.cons_eq_append_iff.mp hs with ⟨rfl, hr⟩ | ⟨before, rfl, hr⟩
    · cases hr
    · rcases List.eq_nil_or_concat others with rfl | ⟨others, last, rfl⟩
      · obtain ⟨body, rfl⟩ := inner.exists_closing
        simp at hr
      · rw [List.concat_eq_append, ← List.append_assoc] at hr
        obtain ⟨rfl, hl⟩ := List.append_inj' hr rfl
        obtain ⟨nodes', rfl, hb⟩ := rest.of_append_text (by rw [List.concat_eq_append, hl])
        exact ⟨_, rfl, .block inner hb⟩

/-- The expressions of nodes side by side stand side by side. -/
theorem nodeExprs_append (naming : Naming) (nodes others : List Node) :
    nodeExprs naming (nodes ++ others) = nodeExprs naming nodes ++ nodeExprs naming others := by
  induction nodes with
  | nil => rfl
  | cons node nodes ih => rw [List.cons_append, nodeExprs, nodeExprs, ih, List.cons_append]

/-- Texts that meet are joined in any order. -/
theorem addPart_text_text (x y : String) (parts : List Expr) :
    addPart (.text x) (addPart (.text y) parts) = addPart (.text (x ++ y)) parts := by
  obtain _ | ⟨part, parts⟩ := parts
  · rfl
  · cases part with
    | literal v =>
      cases v with
      | string z => simp [addPart, Expr.text, String.append_assoc]
      | _ => rfl
    | _ => rfl

/-- Bodies side by side are a body, with the parts of the one and those of the other. -/
theorem Spells.fuse {a b c : List Sign} {nodes others : List Node} (ha : Spells a nodes)
    (hb : Spells b others) (h : Fuses a b c) :
    ∃ joined, Spells c joined ∧ ∀ naming, (nodeExprs naming joined).foldr addPart [] =
      (nodeExprs naming nodes ++ nodeExprs naming others).foldr addPart [] := by
  cases h with
  | apart => exact ⟨_, ha.append hb, fun naming => by rw [nodeExprs_append]⟩
  | fused a x y b =>
    obtain ⟨before, rfl, hbefore⟩ := ha.of_append_text rfl
    cases hb with
    | text _ rest =>
      refine ⟨_, hbefore.append (.text (x ++ y) rest), fun naming => ?_⟩
      simp only [nodeExprs_append, nodeExprs, nodeExpr, List.foldr_append, List.foldr_cons,
        List.append_assoc, List.foldr_nil, addPart_text_text]

/-! ### Texts side by side -/

/-- Whether the last piece that is no comment is a block tag. -/
def endsInBlockTag (pieces : List Piece) : Bool :=
  ((pieces.filter (!·.isComment)).getLast?.map (·.blockTag?.isSome)).getD false

/-- What is asked of two texts that are put side by side. -/
structure Adjoins (a b : String) : Prop where
  /-- No comment of the first text ends with a trim mark. -/
  comments : ¬commentEnd true <:+: a.toList
  /-- The first text does not end in a brace, which might open a tag. -/
  brace : a.toList.getLast? ≠ some '\x7b'
  /-- The first text does not end in half of a line break. -/
  carriage : a.toList.getLast? ≠ some '\r'
  /-- After a block tag there is no line break, which would belong to the tag. -/
  lineBreak : endsInBlockTag (cut a.toList) →
    ∀ text ∈ leadingText? (cut b.toList), startsLine text = false

/-- Whether pieces eat a line break depends on the last one that is no comment. -/
theorem foldl_eats (eating : Bool) (pieces : List Piece) :
    pieces.foldl Piece.eats eating =
      ((pieces.filter (!·.isComment)).getLast?.map (·.blockTag?.isSome)).getD eating := by
  induction pieces generalizing eating with
  | nil => rfl
  | cons piece pieces ih =>
    rw [List.foldl_cons, ih, Piece.eats]
    cases hc : piece.isComment with
    | true => rw [if_pos rfl, List.filter_cons_of_neg (by simp [hc])]
    | false =>
      rw [if_neg Bool.false_ne_true, List.filter_cons_of_pos (by simp [hc]), List.getLast?_cons]
      cases (pieces.filter (!·.isComment)).getLast? <;> rfl

/-- The tags of a text whose tokens can be read are closed. -/
theorem stays_of_ofPieces {eating : Bool} {pieces : List Piece} {signs : List Sign}
    (h : Sign.ofPieces eating pieces = some signs)
    (hc : ∀ piece ∈ pieces, ¬commentEnd true <:+: piece.text) :
    ∀ piece ∈ pieces, piece.Stays := by
  induction pieces generalizing eating signs with
  | nil => simp
  | cons piece pieces ih =>
    rw [Sign.ofPieces] at h
    obtain ⟨found, hs, h⟩ := Option.bind_eq_some_iff.mp h
    obtain ⟨rest, hr, -⟩ := Option.map_eq_some_iff.mp h
    refine List.forall_mem_cons.mpr ⟨?_, ih hr fun p hp => hc p (List.mem_cons_of_mem _ hp)⟩
    cases piece with
    | comment contents trimmed =>
      cases trimmed with
      | false => trivial
      | true => exact hc _ List.mem_cons_self (List.suffix_append ..).isInfix
    | unclosedTag | unclosedRawTag | unclosedComment => cases hs
    | _ => trivial

/-- A piece of a text stands in the text. -/
theorem text_infix_of_mem_cut {cs : List Char} {piece : Piece} (h : piece ∈ cut cs) :
    piece.text <:+: cs := by
  obtain ⟨before, after, hcut⟩ := List.append_of_mem h
  refine ⟨before.flatMap Piece.text, after.flatMap Piece.text, ?_⟩
  have := text_cut cs
  rwa [hcut, List.flatMap_append, List.flatMap_cons, ← List.append_assoc] at this

/-- The run of text that a text ends with. -/
theorem getLast?_run {cs text : List Char} (h : (cut cs).getLast? = some (.run text)) :
    text ≠ [] ∧ text.getLast? = cs.getLast? := by
  obtain ⟨before, hb⟩ := List.getLast?_eq_some_iff.mp h
  have hne : text ≠ [] := ne_nil_of_run_mem_cutWithin (List.mem_of_getLast? h)
  refine ⟨hne, ?_⟩
  have := text_cut cs
  rw [hb, List.flatMap_append, List.flatMap_singleton, Piece.text] at this
  rw [← this, List.getLast?_append, List.getLast?_eq_some_getLast hne, Option.some_or]

/-- Two texts side by side are read into the parts of the one and those of the other. -/
theorem read_append {a b : String} {options : Options} {isOperation : String → Bool} {ea eb : Expr}
    (h : Adjoins a b) (ha : read a options isOperation = .ok ea)
    (hb : read b options isOperation = .ok eb) :
    ∃ nodes others, concat (nodeExprs { options, isOperation } nodes) = ea ∧
      concat (nodeExprs { options, isOperation } others) = eb ∧
      read (a ++ b) options isOperation = .ok (concat
        (nodeExprs { options, isOperation } nodes ++
          nodeExprs { options, isOperation } others)) := by
  obtain ⟨tokens, nodes, ht, hn, hea⟩ := read_eq_ok.mp ha
  obtain ⟨tokens', others, ht', hn', heb⟩ := read_eq_ok.mp hb
  have hsigns := Token.ofText_eq_ok.mp ⟨tokens, ht, rfl⟩
  have hsigns' := Token.ofText_eq_ok.mp ⟨tokens', ht', rfl⟩
  have hstays : ∀ piece ∈ cut a.toList, piece.Stays :=
    stays_of_ofPieces hsigns fun piece hp hc => h.comments (hc.trans (text_infix_of_mem_cut hp))
  obtain ⟨signs, hjoined, fuses⟩ := Sign.ofPieces_joinRuns hsigns hsigns'
    (fun x hx => by
      obtain ⟨hne, hlast⟩ := getLast?_run hx
      exact ⟨hne, hlast ▸ h.carriage⟩)
    (fun he => h.lineBreak (by rwa [foldl_eats] at he))
  rw [← cut_append hstays h.brace, ← String.toList_append] at hjoined
  obtain ⟨joined, hj, rfl⟩ := Token.ofText_eq_ok.mpr hjoined
  obtain ⟨all, hall, hparts⟩ := (Spells.of_ofTokens hn).fuse (Spells.of_ofTokens hn') fuses
  refine ⟨nodes, others, hea, heb, read_eq_ok.mpr ⟨joined, all, hj, hall.ofTokens, ?_⟩⟩
  rw [concat, hparts, concat]

end Source

end Stencil
