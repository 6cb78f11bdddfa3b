import Stencil.Proofs.Adjoining
import Stencil.Proofs.Wording

/-!
# Chains of conditions

A choice among several conditions can be written in two ways: the conditions follow one another in
else tags of one block, or each of them has a block of its own in the else branch of the one before.
A chain is not put together from blocks that can be read one by one, since all of its tags but the
last one end where the next condition begins. What can be said of the end of a block, from any of
its else tags on, is what it concludes the block with: for every body that comes before, the two are
a block whose else branch is known. Both ways of writing conclude a block alike.

What follows a body starts with the tag of a block, so the body keeps the tokens it has on its own,
unless it starts with a line break, or ends with a brace or an open comment.

## Main results

* `TagFirst.tag`: the tokens of a text with a block tag before it.
* `Passage.Reads.exists_signs`: a passage before a block tag has the tokens it has on its own.
* `concludes_tails`: chained and nested conditions conclude a block alike.
* `read_choice`: the expression of a choice.
-/

namespace Stencil

open Text

namespace Source

/-! ### Block tags in a text -/

/-- The text of the tag with the given contents. -/
def tagText (contents : List Char) : List Char :=
  opening ++ contents ++ closing

/-- A text that starts with the tag of a block, and its tokens. -/
structure TagFirst (cs : List Char) (signs : List Sign) : Prop where
  tokens : ∀ eating, Sign.ofPieces eating (cut cs) = some signs
  leading : leadingText? (cut cs) = none
  head : ∀ s rest, signs ≠ .text s :: rest

/-- A tag whose contents are words is cut as one piece. -/
theorem cut_tagText {c : Char} {contents : List Char} (hbrace : c ≠ '\x7b') (hmark : c ≠ '~')
    (hbang : c ≠ '!') (h : Worded (c :: contents)) (rest : List Char) :
    cut (tagText (c :: contents) ++ rest) = .tag (c :: contents) :: cut rest := by
  have hbreak : Text.breakAt opening (opening ++ (c :: contents ++ (closing ++ rest))) =
      some ([], c :: contents ++ (closing ++ rest)) := rfl
  have htag : cutTag (c :: contents ++ (closing ++ rest)) = (.tag (c :: contents), rest) := by
    have hcomment : startsComment (c :: contents ++ (closing ++ rest)) = false := by
      unfold startsComment
      split
      · next hmatch => exact absurd (List.cons.inj hmatch).1 hmark
      · simp [List.isPrefixOf, hbang.symm]
    have hclosing : breakAtClosing none (closing ++ rest) = some ([], rest) := rfl
    unfold cutTag
    split
    · next hraw => exact absurd (List.cons.inj hraw).1 hbrace
    · rw [hcomment, h.passes, hclosing]
      simp
  have hcut := cut_eq_cons hbreak htag
  rw [tagText, List.append_assoc, List.append_assoc, hcut]
  rfl

/-- A block tag before a text is a token before its tokens. -/
theorem TagFirst.tag {c : Char} {contents rest : List Char} {t : Tag} {signs : List Sign}
    (hbrace : c ≠ '\x7b') (hmark : c ≠ '~') (hbang : c ≠ '!') (h : Worded (c :: contents))
    (ht : Tag.ofContents (c :: contents) = .ok t) (heats : t.eatsLineBreak = true)
    (hrest : Sign.ofPieces true (cut rest) = some signs) :
    TagFirst (tagText (c :: contents) ++ rest) (.tag t :: signs) := by
  have htag : Piece.tag? (.tag (c :: contents)) = some (.ok t) := congrArg some ht
  have hne : t ≠ .comment := by
    rintro rfl
    cases heats
  refine ⟨fun eating => ?_, ?_, fun s rest => nofun⟩
  · rw [cut_tagText hbrace hmark hbang h, Sign.ofPieces, (Piece.of_tag htag hne eating).1,
      (Piece.of_tag htag hne eating).2, heats, hrest]
    rfl
  · have hcomment : Piece.isComment (.tag (c :: contents)) = false := by
      unfold Piece.isComment
      rw [htag]
      cases t with
      | comment => exact absurd rfl hne
      | _ => rfl
    rw [cut_tagText hbrace hmark hbang h, leadingText?,
      List.filter_cons_of_pos (by simp [hcomment])]
    rfl

/-! ### Conditions and bodies -/

/-- The text spells one term, and does not end in white space. -/
structure Condition (text : String) (term : Term) : Prop where
  reads : Param.readAll? text.toList = some [.plain term]
  ends : ∀ c ∈ text.toList.getLast?, isBlank c = false

namespace Condition

variable {text : String} {term : Term}

/-- A condition has a first character. -/
theorem exists_cons (h : Condition text term) : ∃ c cs, text.toList = c :: cs := by
  refine List.exists_cons_of_ne_nil fun hnil => ?_
  have hreads := h.reads
  rw [hnil] at hreads
  cases hreads

/-- A word before a condition makes words together with it. -/
theorem worded (h : Condition text term) (word : List Char) (hword : word.all isPlain = true) :
    Worded (word ++ text.toList) :=
  .append (.of_all hword) (Param.worded_of_readAll? h.reads)

/-- A word before the condition leaves nothing to trim. -/
theorem withoutMarks_eq (h : Condition text term) {c : Char} {word : List Char}
    (hmark : c ≠ '~') (hc : isBlank c = false) :
    withoutMarks (c :: word ++ text.toList) = c :: word ++ text.toList := by
  obtain ⟨d, cs, htext⟩ := h.exists_cons
  have hlast : (c :: word ++ text.toList).getLast? = text.toList.getLast? := by
    rw [List.getLast?_append, htext]
    simp [List.getLast?_cons]
  have hunmarked := (Param.worded_of_readAll? h.reads).unmarked
  rw [withoutMarks_of_ends (by simpa using hmark) (hlast ▸ hunmarked), trim_of_ends]
  · rintro _ ⟨⟩
    exact hc
  · rw [hlast]
    exact h.ends

end Condition

/-- A name is a condition. -/
theorem Condition.of_bareName {name : String} (h : BareName name) : Condition name (.path name) :=
  ⟨h.readAll?_eq, fun _ hc => h.isBlank_eq (List.mem_of_mem_getLast? hc)⟩

/-- The tag that opens a conditional block. -/
def ifOpener (term : Term) : Opener where
  inverted := false
  head := "if"
  args := [.plain term]

/-- The contents of a tag that opens a choice are read as its opener. -/
theorem Condition.ofContents_if {text : String} {term : Term} (h : Condition text term) :
    Tag.ofContents (['#', 'i', 'f', ' '] ++ text.toList) =
      .ok (.opening false (ifOpener term).params) := by
  have hparams : paramsOf ('i' :: 'f' :: ' ' :: text.toList) = .ok (ifOpener term).params := by
    rw [paramsOf, Param.readAll?_if h.reads]
    rfl
  unfold Tag.ofContents
  rw [h.withoutMarks_eq (by decide) (by decide)]
  show (paramsOf ('i' :: 'f' :: ' ' :: text.toList)).map (Tag.opening false) = _
  rw [hparams]
  rfl

/-- The contents of a tag that goes on with a choice are read as the branch with the same condition.
-/
theorem Condition.ofContents_elseIf {text : String} {term : Term} (h : Condition text term) :
    Tag.ofContents (['e', 'l', 's', 'e', ' ', 'i', 'f', ' '] ++ text.toList) =
      .ok (.branch (ifOpener term).params) := by
  have hparams : paramsOf (' ' :: 'i' :: 'f' :: ' ' :: text.toList) =
      .ok (ifOpener term).params := by
    rw [paramsOf, Param.readAll?_gap (Param.readAll?_if h.reads)]
    rfl
  unfold Tag.ofContents
  rw [h.withoutMarks_eq (by decide) (by decide)]
  show (paramsOf (' ' :: 'i' :: 'f' :: ' ' :: text.toList)).map Tag.branch = _
  rw [hparams]
  rfl

/-- A text, and what it is read as. -/
structure Passage where
  text : String
  expr : Expr

variable {options : Options} {isOperation : String → Bool}

/-- A text that stays what it is between the tags of a block: it can be read, it starts with no line
break, comments aside, it does not end in a brace or in half of a line break, and none of its
comments ends with a trim mark. -/
structure Passage.Reads (options : Options) (isOperation : String → Bool) (p : Passage) : Prop where
  reads : read p.text options isOperation = .ok p.expr
  lineBreak : ∀ run ∈ leadingText? (cut p.text.toList), startsLine run = false
  comments : ¬commentEnd true <:+: p.text.toList
  brace : p.text.toList.getLast? ≠ some '\x7b'
  carriage : p.text.toList.getLast? ≠ some '\r'

/-- Text at the start of a template text that starts with no comment starts this text. -/
theorem startsLine_leadingText? {cs : List Char} (hline : startsLine cs = false)
    (hcomment : ∀ piece ∈ (cut cs).head?, piece.isComment = false) :
    ∀ run ∈ leadingText? (cut cs), startsLine run = false := by
  intro run hrun
  have htext := text_cut cs
  rcases hcut : cut cs with _ | ⟨piece, pieces⟩
  · rw [hcut] at hrun
    cases hrun
  · rw [hcut] at hrun htext hcomment
    rw [leadingText?, List.filter_cons_of_pos (by simp [hcomment piece rfl])] at hrun
    cases piece with
    | run x =>
      obtain rfl : x = run := Option.some.inj hrun
      by_contra hstart
      have hcs : startsLine cs = true := by
        rw [← htext, List.flatMap_cons, Piece.text]
        unfold startsLine at hstart
        split at hstart
        · rfl
        · rfl
        · exact absurd rfl hstart
      rw [hcs] at hline
      cases hline
    | _ => cases hrun

/-- Before a block tag a passage has the tokens that it has on its own. -/
theorem Passage.Reads.exists_signs {p : Passage} (h : p.Reads options isOperation) :
    ∃ signs nodes, Spells signs nodes ∧
      concat (nodeExprs { options, isOperation } nodes) = p.expr ∧
      ∀ rest others, TagFirst rest others →
        Sign.ofPieces true (cut (p.text.toList ++ rest)) = some (signs ++ others) := by
  obtain ⟨tokens, nodes, htokens, hnodes, he⟩ := read_eq_ok.mp h.reads
  have hsigns := Token.ofText_eq_ok.mp ⟨tokens, htokens, rfl⟩
  refine ⟨_, nodes, Spells.of_ofTokens hnodes, he, fun rest others hrest => ?_⟩
  have hstays : ∀ piece ∈ cut p.text.toList, piece.Stays := stays_of_ofPieces hsigns
    fun piece hp hc => h.comments (hc.trans (text_infix_of_mem_cut hp))
  obtain ⟨joined, hjoined, fuses⟩ := Sign.ofPieces_joinRuns
    ((Sign.ofPieces_eating h.lineBreak true).trans hsigns) (hrest.tokens false)
    (fun x hx => by
      obtain ⟨hne, hlast⟩ := getLast?_run hx
      exact ⟨hne, hlast ▸ h.carriage⟩)
    (fun _ run hrun => by
      rw [hrest.leading] at hrun
      cases hrun)
  rw [cut_append hstays h.brace, hjoined]
  generalize tokens.map Token.sign = signs at fuses
  cases fuses with
  | apart => rfl
  | fused _ _ y others => exact absurd rfl (hrest.head y others)

/-- A text without tags is read as it is. -/
theorem Passage.reads_run {text : String} (hne : text.toList ≠ [])
    (hcut : cut text.toList = [.run text.toList]) (hline : startsLine text.toList = false)
    (hmark : '~' ∉ text.toList) (hbrace : text.toList.getLast? ≠ some '\x7b')
    (hcarriage : text.toList.getLast? ≠ some '\r') :
    Passage.Reads options isOperation ⟨text, .text text⟩ where
  reads := by
    have hsigns : textSigns text.toList = [.text text] := by
      unfold textSigns
      rw [if_neg (by simpa using hne), String.ofList_toList]
    have hpieces : Sign.ofPieces false (cut text.toList) = some [.text text] := by
      rw [hcut, ← hsigns]
      simp [Sign.ofPieces, Piece.signs?, Piece.tag?, Piece.text]
    obtain ⟨tokens, htokens, hmap⟩ := Token.ofText_eq_ok.mpr hpieces
    have hspells : Spells (tokens.map Token.sign) [.text text] := hmap ▸ .text text .nil
    exact read_eq_ok.mpr ⟨tokens, _, htokens, hspells.ofTokens, rfl⟩
  lineBreak := startsLine_leadingText? hline (by
    rw [hcut]
    rintro _ ⟨⟩
    rfl)
  comments h := hmark (h.subset (by decide))
  brace := hbrace
  carriage := hcarriage

/-- A condition and its body, as they are written and as they are read. -/
structure Clause where
  condition : String
  term : Term
  body : Passage

/-- A condition that is one term, and a body that stays what it is. -/
structure Clause.Reads (options : Options) (isOperation : String → Bool) (c : Clause) : Prop where
  condition : Condition c.condition c.term
  body : c.body.Reads options isOperation

/-! ### Choices as they are written -/

/-- The tag that opens a choice. -/
def ifTag (condition : String) : String :=
  "\x7b\x7b#if " ++ condition ++ "\x7d\x7d"

/-- The tag that goes on with another condition. -/
def elseIfTag (condition : String) : String :=
  "\x7b\x7belse if " ++ condition ++ "\x7d\x7d"

/-- The tag before what is left when no condition is met. -/
def elseTag : String :=
  "\x7b\x7belse\x7d\x7d"

/-- The tag that closes a choice. -/
def endTag : String :=
  "\x7b\x7b/if\x7d\x7d"

/-- What is left when no condition is met, if anything is. -/
def otherwiseText : Option Passage → String
  | none => ""
  | some p => elseTag ++ p.text

/-- What follows the body of a condition when the others are chained to it. -/
def chainTail (otherwise : Option Passage) : List Clause → String
  | [] => otherwiseText otherwise ++ endTag
  | c :: clauses => elseIfTag c.condition ++ c.body.text ++ chainTail otherwise clauses

/-- What follows the body of a condition when the others are nested in its else branch. -/
def nestedTail (otherwise : Option Passage) : List Clause → String
  | [] => otherwiseText otherwise ++ endTag
  | c :: clauses =>
    elseTag ++ (ifTag c.condition ++ c.body.text ++ nestedTail otherwise clauses) ++ endTag

/-- A choice whose conditions follow one another in else tags. -/
def chainText (c : Clause) (clauses : List Clause) (otherwise : Option Passage) : String :=
  ifTag c.condition ++ c.body.text ++ chainTail otherwise clauses

/-- The same choice with a block inside of each else branch. -/
def nestedText (c : Clause) (clauses : List Clause) (otherwise : Option Passage) : String :=
  ifTag c.condition ++ c.body.text ++ nestedTail otherwise clauses

/-! ### Reading a choice -/

section Tags

variable {rest : List Char} {others : List Sign}

/-- The tag that ends a choice is read first. -/
theorem tagFirst_end (h : Sign.ofPieces true (cut rest) = some others) :
    TagFirst (endTag.toList ++ rest) (.tag (.closing "if") :: others) :=
  @TagFirst.tag '/' ['i', 'f'] _ _ _ (by decide) (by decide) (by decide) (.of_all rfl) rfl rfl h

/-- The tag of the last branch is read first. -/
theorem tagFirst_else (h : Sign.ofPieces true (cut rest) = some others) :
    TagFirst (elseTag.toList ++ rest) (.tag (.branch []) :: others) :=
  @TagFirst.tag 'e' ['l', 's', 'e'] _ _ _ (by decide) (by decide) (by decide) (.of_all rfl) rfl
    rfl h

/-- The tag that opens a choice is read first. -/
theorem Condition.tagFirst_if {text : String} {term : Term} (h : Condition text term)
    (hrest : Sign.ofPieces true (cut rest) = some others) :
    TagFirst ((ifTag text).toList ++ rest)
      (.tag (.opening false (ifOpener term).params) :: others) := by
  have htext : (ifTag text).toList = tagText ('#' :: (['i', 'f', ' '] ++ text.toList)) := by
    simp [ifTag, tagText, opening, closing]
  rw [htext]
  exact .tag (by decide) (by decide) (by decide) (h.worded ['#', 'i', 'f', ' '] (by decide))
    h.ofContents_if rfl hrest

/-- The tag that goes on with a choice is read first. -/
theorem Condition.tagFirst_elseIf {text : String} {term : Term} (h : Condition text term)
    (hrest : Sign.ofPieces true (cut rest) = some others) :
    TagFirst ((elseIfTag text).toList ++ rest)
      (.tag (.branch (ifOpener term).params) :: others) := by
  have htext : (elseIfTag text).toList =
      tagText ('e' :: (['l', 's', 'e', ' ', 'i', 'f', ' '] ++ text.toList)) := by
    simp [elseIfTag, tagText, opening, closing]
  rw [htext]
  exact .tag (by decide) (by decide) (by decide)
    (h.worded ['e', 'l', 's', 'e', ' ', 'i', 'f', ' '] (by decide))
    h.ofContents_elseIf rfl hrest

end Tags

/-- The call that a choice is, given what it is without its first condition. -/
def Clause.choice (naming : Naming) (c : Clause) (branch : Option Expr) : Expr :=
  .call "if" (termExpr naming c.term :: c.body.expr :: conditionalBranch "if" branch)

/-- A text goes on after the body of a condition and ends the block, with the given else branch. -/
def Concludes (naming : Naming) (cs : List Char) (branch : Option Expr) : Prop :=
  ∃ signs nodes, nodes.map (fun others => concat (nodeExprs naming others)) = branch ∧
    (∀ more others, Sign.ofPieces true (cut more) = some others →
      TagFirst (cs ++ more) (signs ++ others)) ∧
    ∀ term before body, Spells before body →
      SpellsBlock (ifOpener term) "if" (before ++ signs) body nodes

/-- The opener of a choice has its condition. -/
theorem hasCondition_ifOpener (term : Term) : (ifOpener term).HasCondition :=
  fun _ _ => ⟨term, [], rfl⟩

/-- The opener of a choice takes a branch. -/
theorem takesBranch_ifOpener (term : Term) : (ifOpener term).TakesBranch := by
  intro
  show "if" ≠ "with" ∧ "if" ≠ "inline"
  decide

/-- The block of a choice with one condition is the choice of its clause. -/
theorem nodeExpr_ifOpener {naming : Naming} {c : Clause} {body : List Node}
    {branch : Option (List Node)} (hbody : concat (nodeExprs naming body) = c.body.expr) :
    nodeExpr naming ((ifOpener c.term).node body branch) =
      c.choice naming (branch.map fun others => concat (nodeExprs naming others)) := by
  have hwithin : naming.within (declared [.plain c.term]) = naming := by
    simp [Naming.within, declared]
  have hnode : ∀ others, nodeExpr naming ((ifOpener c.term).node body others) =
      blockExpr naming false "if" [.plain c.term] (concat (nodeExprs naming body))
        (others.map fun others => concat (nodeExprs naming others)) := by
    intro others
    unfold Opener.node ifOpener nodeExpr
    rw [hwithin]
    cases others <;> rfl
  rw [hnode, hbody]
  rfl

/-- The closing tag leaves no else branch. -/
theorem concludes_end (naming : Naming) : Concludes naming endTag.toList none :=
  ⟨[.tag (.closing "if")], none, rfl, fun _ _ hmore => tagFirst_end hmore,
    fun term _ _ hbody => .closed (hasCondition_ifOpener term) hbody⟩

/-- A lone else tag leaves a passage. -/
theorem concludes_otherwise {p : Passage} (h : p.Reads options isOperation) :
    Concludes { options, isOperation } (elseTag ++ p.text ++ endTag).toList (some p.expr) := by
  obtain ⟨signs, nodes, hspells, hexpr, htokens⟩ := h.exists_signs
  refine ⟨.tag (.branch []) :: (signs ++ [.tag (.closing "if")]), some nodes, congrArg some hexpr,
    fun more others hmore => ?_, fun term before body hbody =>
      .branched (hasCondition_ifOpener term) (takesBranch_ifOpener term) hbody hspells⟩
  have helse := tagFirst_else (htokens _ _ (tagFirst_end hmore))
  simpa using helse

/-- An else tag with a condition goes on with another block. -/
theorem concludes_elseIf {c : Clause} (h : c.Reads options isOperation) {tail : String}
    {branch : Option Expr} (htail : Concludes { options, isOperation } tail.toList branch) :
    Concludes { options, isOperation } (elseIfTag c.condition ++ c.body.text ++ tail).toList
      (some (c.choice { options, isOperation } branch)) := by
  obtain ⟨signs, nodes, hspells, hexpr, htokens⟩ := h.body.exists_signs
  obtain ⟨after, others, rfl, hafter, hends⟩ := htail
  refine ⟨.tag (.branch (ifOpener c.term).params) :: (signs ++ after),
    some [(ifOpener c.term).node nodes others], ?_, fun more rest hmore => ?_,
    fun term before body hbody => .chained (hasCondition_ifOpener term)
      (takesBranch_ifOpener term) hbody rfl (hends c.term _ _ hspells)⟩
  · rw [Option.map_some, nodeExprs, nodeExprs, concat_singleton, nodeExpr_ifOpener hexpr]
  · have hchain := h.condition.tagFirst_elseIf (htokens _ _ (hafter more rest hmore))
    simpa using hchain

/-- A block inside of a lone else tag takes the place of the other conditions. -/
theorem concludes_nested {c : Clause} (h : c.Reads options isOperation) {tail : String}
    {branch : Option Expr} (htail : Concludes { options, isOperation } tail.toList branch) :
    Concludes { options, isOperation }
      (elseTag ++ (ifTag c.condition ++ c.body.text ++ tail) ++ endTag).toList
      (some (c.choice { options, isOperation } branch)) := by
  obtain ⟨signs, nodes, hspells, hexpr, htokens⟩ := h.body.exists_signs
  obtain ⟨after, others, rfl, hafter, hends⟩ := htail
  have hblock : Spells (.tag (.opening false (ifOpener c.term).params) :: ((signs ++ after) ++ []))
      [(ifOpener c.term).node nodes others] := .block (hends c.term _ _ hspells) .nil
  rw [List.append_nil] at hblock
  refine ⟨.tag (.branch []) :: (.tag (.opening false (ifOpener c.term).params) ::
      (signs ++ after) ++ [.tag (.closing "if")]), some [(ifOpener c.term).node nodes others], ?_,
    fun more rest hmore => ?_, fun term before body hbody =>
      .branched (hasCondition_ifOpener term) (takesBranch_ifOpener term) hbody hblock⟩
  · rw [Option.map_some, nodeExprs, nodeExprs, concat_singleton, nodeExpr_ifOpener hexpr]
  · have hend := (tagFirst_end hmore).tokens true
    have hinner := h.condition.tagFirst_if (htokens _ _ (hafter _ _ hend))
    have helse := tagFirst_else (hinner.tokens true)
    simpa using helse

/-- What is left when no condition is met ends the block. -/
theorem concludes_otherwiseText {otherwise : Option Passage}
    (h : ∀ p ∈ otherwise, p.Reads options isOperation) :
    Concludes { options, isOperation } (otherwiseText otherwise ++ endTag).toList
      (otherwise.map Passage.expr) := by
  cases otherwise with
  | none => simpa [otherwiseText] using concludes_end { options, isOperation }
  | some p => exact concludes_otherwise (h p rfl)

/-- The else branch of a choice, given the clauses that are left. -/
def branchExpr (naming : Naming) (otherwise : Option Passage) : List Clause → Option Expr
  | [] => otherwise.map Passage.expr
  | c :: clauses => some (c.choice naming (branchExpr naming otherwise clauses))

/-- Chained conditions are nested ones. -/
theorem concludes_tails {otherwise : Option Passage} {clauses : List Clause}
    (hclauses : ∀ c ∈ clauses, c.Reads options isOperation)
    (hotherwise : ∀ p ∈ otherwise, p.Reads options isOperation) :
    Concludes { options, isOperation } (chainTail otherwise clauses).toList
        (branchExpr { options, isOperation } otherwise clauses) ∧
      Concludes { options, isOperation } (nestedTail otherwise clauses).toList
        (branchExpr { options, isOperation } otherwise clauses) := by
  induction clauses with
  | nil => exact ⟨concludes_otherwiseText hotherwise, concludes_otherwiseText hotherwise⟩
  | cons c clauses ih =>
    obtain ⟨hc, hclauses⟩ := List.forall_mem_cons.mp hclauses
    obtain ⟨hchain, hnested⟩ := ih hclauses
    exact ⟨concludes_elseIf hc hchain, concludes_nested hc hnested⟩

/-- A condition, its body and what ends the block are read as a choice. -/
theorem read_choice {c : Clause} (h : c.Reads options isOperation) {tail : String}
    {branch : Option Expr} (htail : Concludes { options, isOperation } tail.toList branch) :
    read (ifTag c.condition ++ c.body.text ++ tail) options isOperation =
      .ok (c.choice { options, isOperation } branch) := by
  obtain ⟨signs, nodes, hspells, hexpr, htokens⟩ := h.body.exists_signs
  obtain ⟨after, others, rfl, hafter, hends⟩ := htail
  have hblock : Spells (.tag (.opening false (ifOpener c.term).params) :: ((signs ++ after) ++ []))
      [(ifOpener c.term).node nodes others] := .block (hends c.term _ _ hspells) .nil
  have hopen := h.condition.tagFirst_if (htokens _ _ (hafter [] [] rfl))
  have hpieces : Sign.ofPieces false
      (cut (ifTag c.condition ++ c.body.text ++ tail).toList) =
      some (.tag (.opening false (ifOpener c.term).params) :: ((signs ++ after) ++ [])) := by
    simpa using hopen.tokens false
  obtain ⟨tokens, htext, hsigns⟩ := Token.ofText_eq_ok.mpr hpieces
  rw [← hsigns] at hblock
  refine read_eq_ok.mpr ⟨tokens, _, htext, hblock.ofTokens, ?_⟩
  rw [nodeExprs, nodeExprs, concat_singleton, nodeExpr_ifOpener hexpr]

end Source

end Stencil
