import Mathlib.Data.List.Forall2
import Mathlib.Data.List.TakeWhile
import Stencil.Proofs.Wording

/-!
# The scope of block parameters

A tag of a template holds paths that stand for values. What a path is read as depends on the blocks
whose main body it stands in: their parameters are looked up in the scopes around the path, and
other names in the current context. The main body of a block goes from the tag that opens it to its
first else tag or its closing tag. The arguments of the block, its else branch and what follows it
are outside, and so is each block that is chained to it.

Which blocks these are is told by the tags before the path, one after the other, without what the
tags are made into. The expression of a template is then taken apart into what its paths are read
as, in their order, and these are the only reads of the current context in it.

Not every word in a tag stands for a value: the name of a called operation or template does not, and
neither do words that are left out of the expression, such as what follows the condition of a
conditional block.

## Main results

* `Occurrence.expr_readsAs`: how a path is read.
* `parts_blockExpr`: the paths of a block, its body and its else branch.
* `Spells.parts`: the paths of a body.
* `read_paths_scoped`: block parameters are scoped to the main body of their block.
-/

namespace Stencil

namespace Source

/-! ### Paths in tags -/

mutual

/-- The paths in a term. In parentheses, a name in front is that of an operation; another term in
front is all that counts. -/
def termPaths : Term → List String
  | .literal _ => []
  | .path text => [text]
  | .group (.plain (.path _) :: args) => argPaths args
  | .group (.plain term :: _) => termPaths term
  | .group _ => []

/-- The paths in a parameter. -/
def paramPaths : Param → List String
  | .plain term => termPaths term
  | .named _ term => termPaths term
  | .block _ => []

/-- The paths in parameters. -/
def argPaths : List Param → List String
  | [] => []
  | param :: params => paramPaths param ++ argPaths params

end

/-- The paths in a tag that opens a block: the name of an inverted block, the condition of a
conditional, the name of a section, or else the arguments of the operation. -/
def Opener.paths (isOperation : String → Bool) (o : Opener) : List String :=
  if o.inverted then [o.head]
  else if o.head = "if" ∨ o.head = "unless" then argPaths (o.args.take 1)
  else if o.args.isEmpty && !isOperation o.head && o.head != "with" && o.head != "inline" then
    [o.head]
  else argPaths o.args

/-- The block that a tag opens, whose words start with a name. -/
def Opener.ofParams? (inverted : Bool) : List Param → Option Opener
  | .plain (.path head) :: args => some ⟨inverted, head, args⟩
  | _ => none

/-- The paths in a tag. -/
def Tag.paths (isOperation : String → Bool) : Tag → List String
  | .value _ [.plain (.path "NEWLINE")] => []
  | .value _ [.plain term] => termPaths term
  | .value _ (.plain (.path _) :: args) => argPaths args
  | .opening inverted params =>
    (Opener.ofParams? inverted params).elim [] (Opener.paths isOperation)
  | .branch params => (Opener.ofParams? false params).elim [] (Opener.paths isOperation)
  | .template (.plain (.path _) :: args) => argPaths args
  | .template params => argPaths params
  | _ => []

/-! ### The blocks around a tag -/

/-- A block that has not been closed yet. -/
structure Around where
  opener : Opener
  /-- Whether its main body goes on. -/
  inBody : Bool
  /-- Whether the block around it waits for the same closing tag. -/
  chained : Bool

/-- An else tag ends the main body of the innermost block. -/
def endBody : List Around → List Around
  | [] => []
  | block :: blocks => { block with inBody := false } :: blocks

/-- A closing tag ends the innermost block, and those that it is chained to. -/
def close : List Around → List Around
  | [] => []
  | block :: blocks => if block.chained then close blocks else blocks

/-- The blocks around a tag itself, the innermost first. An else tag stands outside of the main body
that it ends. -/
def Sign.around (blocks : List Around) : Sign → List Around
  | .tag (.branch _) => endBody blocks
  | _ => blocks

/-- The blocks around what follows a tag. -/
def Sign.step (blocks : List Around) : Sign → List Around
  | .tag (.opening inverted params) =>
    (Opener.ofParams? inverted params).elim blocks (⟨·, true, false⟩ :: blocks)
  | .tag (.branch params) =>
    (Opener.ofParams? false params).elim (endBody blocks) (⟨·, true, true⟩ :: endBody blocks)
  | .tag (.closing _) => close blocks
  | _ => blocks

/-- A path at its place in a template. -/
structure Occurrence where
  path : String
  /-- The blocks whose main body the path stands in, the outermost first. -/
  within : List Opener

/-- The blocks whose main body goes on, the outermost first. -/
def bodies (blocks : List Around) : List Opener :=
  ((blocks.filter (·.inBody)).map (·.opener)).reverse

/-- The paths in a token. -/
def Sign.paths (isOperation : String → Bool) : Sign → List String
  | .text _ => []
  | .tag t => t.paths isOperation

/-- The paths in tokens, in their order. -/
def occurrences (isOperation : String → Bool) (blocks : List Around) : List Sign → List Occurrence
  | [] => []
  | sign :: signs =>
    (sign.paths isOperation).map (⟨·, bodies (sign.around blocks)⟩) ++
      occurrences isOperation (sign.step blocks) signs

/-! ### How a path is read -/

/-- Whether a path is the current context, starts there in so many words, or is read from the place
in a loop. -/
def IsHere (path : String) : Prop :=
  path = "this" ∨ path = "." ∨ ['@'] <+: path.toList ∨
    "this.".toList <+: path.toList ∨ "this/".toList <+: path.toList

/-- Whether a path starts with a step. -/
def IsUpward (path : String) : Prop :=
  "../".toList <+: path.toList ∨ "./".toList <+: path.toList

/-- Whether no character separates segments of the path. -/
def IsSingle (path : String) : Prop :=
  ∀ c ∈ path.toList, Path.isSeparator c = false

/-- Whether a path starts with a parameter of a block whose main body it stands in. -/
def Occurrence.IsParam (o : Occurrence) : Prop :=
  ∃ block ∈ o.within, firstSegment o.path ∈ declared block.args

/-- How a path is read. Upward paths and block parameters are looked up in all scopes, and the other
ones are read from the current context; a single word that is no parameter but the name of an
operation calls it in case there is no value. -/
structure Occurrence.ReadsAs (isOperation : String → Bool) (o : Occurrence) (base e : Expr) :
    Prop where
  upward : IsUpward o.path ∨ o.IsParam → base = lookupExpr o.path
  inContext : ¬(IsUpward o.path ∨ o.IsParam) → base = .path (Path.ofText o.path)
  choice : IsSingle o.path ∧ ¬o.IsParam ∧ isOperation o.path = true →
    e = .call "default" [base, .call o.path []]
  plain : ¬(IsSingle o.path ∧ ¬o.IsParam ∧ isOperation o.path = true) → e = base

/-- What a path is read as in the main body of some blocks. -/
def Occurrence.expr (options : Options) (isOperation : String → Bool) (o : Occurrence) : Expr :=
  Naming.pathExpr ⟨options, isOperation, o.within.flatMap fun block => declared block.args⟩ o.path

/-- A text starts with a word exactly if the word is its beginning. -/
theorem startsWith_iff {word text : String} :
    startsWith word text = true ↔ word.toList <+: text.toList :=
  List.isPrefixOf_iff_prefix

/-- A path is its own first segment exactly if it is single. -/
theorem firstSegment_eq_iff {path : String} : firstSegment path = path ↔ IsSingle path := by
  have heq : firstSegment path = path ↔
      path.toList.takeWhile (fun c => !Path.isSeparator c) = path.toList := by
    rw [← String.toList_inj, firstSegment, String.toList_ofList]
  rw [heq, List.takeWhile_eq_self_iff]
  simp [IsSingle]

/-- A path that is not read here has nothing after `this`. -/
theorem afterThis?_eq_none {path : String} (h : ¬IsHere path) : afterThis? path = none := by
  unfold afterThis?
  split
  · next c rest hpath =>
    rw [if_neg]
    intro hc
    have hstarts : ∀ word : List Char, word = ['t', 'h', 'i', 's', c] → word <+: path.toList := by
      rintro _ rfl
      exact ⟨rest, hpath.symm⟩
    obtain rfl | rfl : c = '.' ∨ c = '/' := by simpa [Path.isSeparator] using hc
    · exact h (.inr (.inr (.inr (.inl (hstarts _ rfl)))))
    · exact h (.inr (.inr (.inr (.inr (hstarts _ rfl)))))
  · rfl

/-- An occurrence starts at a block parameter exactly if a block around it declares that. -/
theorem Occurrence.contains_params (o : Occurrence) :
    (o.within.flatMap fun block => declared block.args).contains (firstSegment o.path) = true ↔
      o.IsParam := by
  simp [IsParam]

/-- A path is upward exactly if it starts with a step. -/
theorem isUpward_iff {path : String} :
    (startsWith "../" path || startsWith "./" path) = true ↔ IsUpward path := by
  rw [Bool.or_eq_true, startsWith_iff, startsWith_iff, IsUpward]

/-- How a path is read. -/
theorem Occurrence.expr_readsAs {options : Options} (hrecurse : options.recurse = false)
    (isOperation : String → Bool) (o : Occurrence) (h : ¬IsHere o.path) :
    ∃ base, o.ReadsAs isOperation base (o.expr options isOperation) := by
  have hthis : ¬(o.path = "this" ∨ o.path = ".") := fun hor => h (hor.imp_right .inl)
  have hat : ¬startsWith "@" o.path = true := fun hat =>
    h (.inr (.inr (.inl (startsWith_iff.mp hat))))
  have hlookup : (startsWith "../" o.path || startsWith "./" o.path ||
      (o.within.flatMap fun block => declared block.args).contains (firstSegment o.path) ||
      options.recurse) = true ↔ IsUpward o.path ∨ o.IsParam := by
    rw [hrecurse, Bool.or_false, Bool.or_eq_true, isUpward_iff, o.contains_params]
  have hchoice : (firstSegment o.path = o.path ∧
      (!(o.within.flatMap fun block => declared block.args).contains (firstSegment o.path)) = true ∧
      isOperation o.path = true) ↔
      IsSingle o.path ∧ ¬o.IsParam ∧ isOperation o.path = true := by
    rw [firstSegment_eq_iff, Bool.not_eq_true', ← Bool.not_eq_true, o.contains_params]
  unfold expr Naming.pathExpr
  rw [if_neg hthis, if_neg hat, afterThis?_eq_none h]
  exact ⟨_, fun hup => if_pos (hlookup.mpr hup), fun hup => if_neg (mt hlookup.mp hup),
    fun hop => if_pos (hchoice.mpr hop), fun hop => if_neg (mt hchoice.mp hop)⟩

/-! ### The parts of an expression -/

/-- What a path may be read as. -/
inductive IsRead : Expr → Prop where
  | path (path : Path) : IsRead (.path path)
  | place {name : String} (h : startsWith "@" name = true) : IsRead (.call name [])
  | lookup (name : String) : IsRead (lookupExpr name)
  | choice (base : Expr) (name : String) : IsRead (.call "default" [base, .call name []])

/-- The expression of a path is a read. -/
theorem isRead_pathExpr (naming : Naming) (text : String) : IsRead (naming.pathExpr text) := by
  unfold Naming.pathExpr
  split
  · exact .path _
  · split
    · next h => exact .place h
    · split
      · exact .path _
      · dsimp only
        split
        · exact .choice _ _
        · split
          · exact .lookup _
          · exact .path _

mutual

/-- The reads that an expression consists of, in their order. There are no other paths in it. -/
inductive Parts : Expr → List Expr → Prop where
  | read {e} (h : IsRead e) : Parts e [e]
  | literal (v : Value) : Parts (.literal v) []
  | named (name : String) {e parts} (h : Parts e parts) : Parts (.named name e) parts
  | call (operation : String) {args parts} (h : PartsAll args parts) :
    Parts (.call operation args) parts

/-- The reads that expressions consist of. -/
inductive PartsAll : List Expr → List Expr → Prop where
  | nil : PartsAll [] []
  | cons {e es parts others} (h : Parts e parts) (hs : PartsAll es others) :
    PartsAll (e :: es) (parts ++ others)

end

/-- One expression consists of its reads. -/
theorem PartsAll.single {e : Expr} {parts : List Expr} (h : Parts e parts) :
    PartsAll [e] parts := by
  have hall := PartsAll.cons h .nil
  rwa [List.append_nil] at hall

/-- Expressions after each other consist of their reads after each other. -/
theorem PartsAll.append {es fs parts others : List Expr} (h : PartsAll es parts)
    (hs : PartsAll fs others) : PartsAll (es ++ fs) (parts ++ others) := by
  induction es generalizing parts with
  | nil =>
    cases h
    exact hs
  | cons e es ih =>
    cases h with
    | cons he hes =>
      rw [List.append_assoc]
      exact .cons he (ih hes)

/-- A literal has no reads. -/
theorem Parts.of_literal {v : Value} {parts : List Expr} (h : Parts (.literal v) parts) :
    parts = [] := by
  cases h with
  | read h => cases h
  | literal => rfl

/-- Joining texts that meet changes no read. -/
theorem PartsAll.addPart {e : Expr} {es parts : List Expr} (h : PartsAll (e :: es) parts) :
    PartsAll (addPart e es) parts := by
  unfold Source.addPart
  split
  · next a b rest =>
    cases h with
    | cons ha hs =>
      cases hs with
      | cons hb hrest =>
        rw [ha.of_literal, hb.of_literal]
        exact .cons (.literal _) hrest
  · exact h

/-- The reads of a body are those of its parts. -/
theorem PartsAll.concat {es parts : List Expr} (h : PartsAll es parts) :
    Parts (concat es) parts := by
  have hfolded : PartsAll (es.foldr Source.addPart []) parts := by
    induction es generalizing parts with
    | nil => exact h
    | cons e es ih =>
      cases h with
      | cons he hes => exact PartsAll.addPart (.cons he (ih hes))
  unfold Source.concat
  split
  · next hnil =>
    rw [hnil] at hfolded
    cases hfolded
    exact .literal _
  · next part hpart =>
    rw [hpart] at hfolded
    cases hfolded with
    | cons he hes =>
      cases hes
      rwa [List.append_nil]
  · exact .call _ hfolded

/-- The reads of a conditional are those of its arguments. -/
theorem Parts.of_if {args parts : List Expr} (h : Parts (.call "if" args) parts) :
    PartsAll args parts := by
  generalize he : Expr.call "if" args = e at h
  cases h with
  | read h =>
    cases h with
    | place hat =>
      obtain ⟨rfl, -⟩ := Expr.call.inj he
      cases hat
    | path => cases he
    | lookup | choice => exact absurd (Expr.call.inj he).1 (by decide)
  | literal | named => cases he
  | call _ h =>
    obtain ⟨-, rfl⟩ := Expr.call.inj he
    exact h

/-! ### The parts of terms and blocks -/

mutual

/-- A term consists of its paths. -/
theorem parts_termExpr (naming : Naming) (term : Term) :
    Parts (termExpr naming term) ((termPaths term).map naming.pathExpr) := by
  match term with
  | .literal v => exact .literal v
  | .path text => exact .read (isRead_pathExpr naming text)
  | .group (.plain (.path name) :: args) => exact .call name (parts_argExprs naming args)
  | .group (.plain (.literal v) :: args) => exact parts_termExpr naming (.literal v)
  | .group (.plain (.group params) :: args) => exact parts_termExpr naming (.group params)
  | .group [] | .group (.named _ _ :: _) | .group (.block _ :: _) => exact .literal .null

/-- An argument consists of its paths. -/
theorem parts_argExpr (naming : Naming) (param : Param) :
    Parts (argExpr naming param) ((paramPaths param).map naming.pathExpr) := by
  match param with
  | .plain term => exact parts_termExpr naming term
  | .named name term => exact .named name (parts_termExpr naming term)
  | .block names => exact .named "as" (.literal _)

/-- Arguments consist of their paths. -/
theorem parts_argExprs (naming : Naming) (params : List Param) :
    PartsAll (argExprs naming params) ((argPaths params).map naming.pathExpr) := by
  match params with
  | [] => exact .nil
  | param :: params =>
    rw [argPaths, List.map_append]
    exact .cons (parts_argExpr naming param) (parts_argExprs naming params)

end

/-- The reads of an else branch are still there when it is joined with the conditions before it. -/
theorem parts_conditionalBranch (head : String) {branch : Option Expr} {parts : List Expr}
    (h : PartsAll branch.toList parts) : PartsAll (conditionalBranch head branch) parts := by
  unfold conditionalBranch
  split
  · next operation args =>
    split
    · next hif =>
      rw [hif.2] at h
      cases h with
      | cons he hes =>
        cases hes
        rw [List.append_nil]
        exact he.of_if
    · exact h
  · exact h
  · exact h

/-- The reads of a block are those of its tag, its body and its else branch. -/
theorem parts_blockExpr (naming : Naming) (o : Opener) {body : Expr} {branch : Option Expr}
    {inner others : List Expr} (hbody : Parts body inner)
    (hbranch : PartsAll branch.toList others) :
    Parts (blockExpr naming o.inverted o.head o.args body branch)
      ((o.paths naming.isOperation).map naming.pathExpr ++ (inner ++ others)) := by
  have hhead : PartsAll [naming.pathExpr o.head] ([o.head].map naming.pathExpr) :=
    .single (.read (isRead_pathExpr naming o.head))
  have hrest : PartsAll (body :: branch.toList) (inner ++ others) := .cons hbody hbranch
  unfold blockExpr Opener.paths
  split
  · exact .call _ (hhead.append hrest)
  · split
    · have hcondition := parts_argExprs naming (o.args.take 1)
      have hrest' : PartsAll (body :: conditionalBranch o.head branch) (inner ++ others) :=
        .cons hbody (parts_conditionalBranch o.head hbranch)
      rw [List.append_assoc]
      exact .call _ (hcondition.append hrest')
    · split
      · exact .call _ (hhead.append hrest)
      · rw [List.append_assoc]
        exact .call _ ((parts_argExprs naming o.args).append hrest)

/-! ### The parts of tags -/

/-- What is written of an expression consists of the same reads. -/
theorem parts_written {naming : Naming} {e : Expr} {parts : List Expr} (escaped : Bool)
    (h : Parts e parts) : Parts (written naming escaped e) parts := by
  unfold written
  split
  · exact .call _ (.single h)
  · exact h

/-- The reads of a written value or call are those of its tag. -/
theorem parts_ofValue {naming : Naming} {escaped : Bool} {params : List Param} {node : Node}
    (h : Node.ofValue escaped params = .ok node) : Parts (nodeExpr naming node)
      (((Tag.value escaped params).paths naming.isOperation).map naming.pathExpr) := by
  unfold Node.ofValue at h
  split at h
  · obtain rfl := Except.ok.inj h
    exact .literal _
  · next term hterm =>
    obtain rfl := Except.ok.inj h
    have hpaths : (Tag.value escaped [.plain term]).paths naming.isOperation = termPaths term := by
      unfold Tag.paths
      split <;> simp_all
    rw [hpaths]
    exact parts_written escaped (parts_termExpr naming term)
  · next name args _ hargs =>
    obtain rfl := Except.ok.inj h
    have hpaths : (Tag.value escaped (.plain (.path name) :: args)).paths naming.isOperation =
        argPaths args := by
      unfold Tag.paths
      split <;> simp_all
    rw [hpaths]
    exact parts_written escaped (.call name (parts_argExprs naming args))
  · cases h
  · cases h

/-- The reads of the arguments of a call of a template are those of its parameters. -/
theorem parts_templateArgs {naming : Naming} {hasContext : Bool} {params : List Param}
    {args : List (String × Term)} (h : templateArgs hasContext params = .ok args) :
    PartsAll (args.map fun (key, term) => .named key (termExpr naming term))
      ((argPaths params).map naming.pathExpr) := by
  induction params generalizing hasContext args with
  | nil =>
    obtain rfl := Except.ok.inj h
    exact .nil
  | cons param params ih =>
    have hcons : ∀ {key : String} {term : Term} {hasContext : Bool},
        (templateArgs hasContext params).map ((key, term) :: ·) = .ok args →
        PartsAll (args.map fun (key, term) => .named key (termExpr naming term))
          ((termPaths term ++ argPaths params).map naming.pathExpr) := by
      intro key term hasContext h
      cases hargs : templateArgs hasContext params with
      | error cause => simp [hargs, Except.map] at h
      | ok others =>
        obtain rfl : (key, term) :: others = args := by simpa [hargs, Except.map] using h
        rw [List.map_append]
        exact .cons (.named key (parts_termExpr naming term)) (ih hargs)
    rw [argPaths]
    cases param with
    | named key term => exact hcons h
    | plain term =>
      cases hasContext with
      | true => cases h
      | false => exact hcons h
    | block names => cases h

/-- The reads of a call of a template are those of its tag. -/
theorem parts_ofTemplate {naming : Naming} {params : List Param} {node : Node}
    (h : Node.ofTemplate params = .ok node) : Parts (nodeExpr naming node)
      (((Tag.template params).paths naming.isOperation).map naming.pathExpr) := by
  unfold Node.ofTemplate at h
  split at h
  · next name args =>
    cases hargs : templateArgs false args with
    | error cause => simp [hargs, Except.map] at h
    | ok named =>
      obtain rfl : Node.template name named = node := by simpa [hargs, Except.map] using h
      have hname : ∃ paths, (Tag.template (.plain name :: args)).paths naming.isOperation =
          paths ++ argPaths args ∧
          Parts (templateNameExpr naming name) (paths.map naming.pathExpr) := by
        cases name with
        | path text => exact ⟨[], rfl, .literal _⟩
        | literal v => exact ⟨[], rfl, .literal v⟩
        | group params => exact ⟨_, rfl, parts_termExpr naming (.group params)⟩
      obtain ⟨paths, hpaths, hparts⟩ := hname
      rw [hpaths, List.map_append]
      exact .call "partial" (.cons hparts (parts_templateArgs hargs))
  · cases h

/-! ### The parts of a template -/

section

variable (options : Options) (isOperation : String → Bool)

/-- The naming in some blocks. -/
def namingIn (blocks : List Around) : Naming :=
  ⟨options, isOperation, (bodies blocks).flatMap fun block => declared block.args⟩

/-- A block whose main body goes on is the innermost one. -/
theorem bodies_cons (o : Opener) (chained : Bool) (blocks : List Around) :
    bodies (⟨o, true, chained⟩ :: blocks) = bodies blocks ++ [o] := by
  simp [bodies]

/-- In the main body of a block its parameters are known. -/
theorem namingIn_cons (o : Opener) (chained : Bool) (blocks : List Around) :
    namingIn options isOperation (⟨o, true, chained⟩ :: blocks) =
      (namingIn options isOperation blocks).within (declared o.args) := by
  simp [namingIn, bodies_cons, Naming.within]

/-- What the paths in tokens are read as, in their order. -/
def reads (blocks : List Around) (signs : List Sign) : List Expr :=
  (occurrences isOperation blocks signs).map (Occurrence.expr options isOperation)

/-- The paths of a token are read by the naming of the blocks around it. -/
theorem reads_cons (blocks : List Around) (sign : Sign) (signs : List Sign) :
    reads options isOperation blocks (sign :: signs) =
      (sign.paths isOperation).map (namingIn options isOperation (sign.around blocks)).pathExpr ++
        reads options isOperation (sign.step blocks) signs := by
  rw [reads, occurrences, List.map_append, List.map_map]
  rfl

/-- The reads in tokens after each other are those after each other, in the blocks then open. -/
theorem reads_append (blocks : List Around) (a b : List Sign) :
    reads options isOperation blocks (a ++ b) = reads options isOperation blocks a ++
      reads options isOperation (a.foldl Sign.step blocks) b := by
  induction a generalizing blocks with
  | nil => rfl
  | cons sign a ih =>
    rw [List.cons_append, reads_cons, reads_cons, ih, List.append_assoc, List.foldl_cons]

mutual

/-- The reads of a body are those of its tokens, and after it the same blocks are open. -/
theorem Spells.parts {signs : List Sign} {nodes : List Node} (h : Spells signs nodes)
    (blocks : List Around) :
    signs.foldl Sign.step blocks = blocks ∧
      PartsAll (nodeExprs (namingIn options isOperation blocks) nodes)
        (reads options isOperation blocks signs) := by
  match h with
  | .nil => exact ⟨rfl, .nil⟩
  | .text s rest =>
    obtain ⟨hblocks, hrest⟩ := rest.parts blocks
    exact ⟨hblocks, .cons (.literal _) hrest⟩
  | .value h rest =>
    obtain ⟨hblocks, hrest⟩ := rest.parts blocks
    refine ⟨hblocks, ?_⟩
    rw [reads_cons]
    exact .cons (parts_ofValue h) hrest
  | .template h rest =>
    obtain ⟨hblocks, hrest⟩ := rest.parts blocks
    refine ⟨hblocks, ?_⟩
    rw [reads_cons]
    exact .cons (parts_ofTemplate h) hrest
  | .comment rest => exact rest.parts blocks
  | @Spells.block o tail body branch signs nodes inner rest =>
    obtain ⟨htail, hinner⟩ := inner.parts blocks false
    obtain ⟨hblocks, hrest⟩ := rest.parts blocks
    have hclose : tail.foldl Sign.step (⟨o, true, false⟩ :: blocks) = blocks := htail
    have hafter : (tail ++ signs).foldl Sign.step (⟨o, true, false⟩ :: blocks) = blocks := by
      rw [List.foldl_append, hclose, hblocks]
    refine ⟨hafter, ?_⟩
    rw [reads_cons]
    show PartsAll _ ((o.paths isOperation).map (namingIn options isOperation blocks).pathExpr ++
      reads options isOperation (⟨o, true, false⟩ :: blocks) (tail ++ signs))
    rw [reads_append, hclose, ← List.append_assoc]
    exact .cons hinner hrest

/-- The reads of a block are those of its tag and of what follows it up to its closing tag, and
after it the blocks around it are open. -/
theorem SpellsBlock.parts {o : Opener} {closer : String} {signs : List Sign} {body : List Node}
    {branch : Option (List Node)} (h : SpellsBlock o closer signs body branch)
    (blocks : List Around) (chained : Bool) :
    signs.foldl Sign.step (⟨o, true, chained⟩ :: blocks) = close (⟨o, true, chained⟩ :: blocks) ∧
      Parts (nodeExpr (namingIn options isOperation blocks) (o.node body branch))
        ((o.paths isOperation).map (namingIn options isOperation blocks).pathExpr ++
          reads options isOperation (⟨o, true, chained⟩ :: blocks) signs) := by
  match h with
  | .closed _ inner =>
    obtain ⟨hblocks, hbody⟩ := inner.parts (⟨o, true, chained⟩ :: blocks)
    rw [namingIn_cons] at hbody
    refine ⟨by rw [List.foldl_append, hblocks]; rfl, ?_⟩
    rw [reads_append]
    exact parts_blockExpr (namingIn options isOperation blocks) o hbody.concat .nil
  | @SpellsBlock.branched _ _ _ _ others _ _ _ inner other =>
    obtain ⟨hblocks, hbody⟩ := inner.parts (⟨o, true, chained⟩ :: blocks)
    obtain ⟨hothers, hbranch⟩ := other.parts (⟨o, false, chained⟩ :: blocks)
    rw [namingIn_cons] at hbody
    have hafter : (others ++ [Sign.tag (.closing closer)]).foldl Sign.step
        (⟨o, false, chained⟩ :: blocks) = close (⟨o, true, chained⟩ :: blocks) := by
      rw [List.foldl_append, hothers]
      rfl
    refine ⟨by rw [List.foldl_append, hblocks]; exact hafter, ?_⟩
    rw [reads_append, hblocks, reads_cons]
    have hreads : reads options isOperation (⟨o, false, chained⟩ :: blocks)
        (others ++ [.tag (.closing closer)]) =
          reads options isOperation (⟨o, false, chained⟩ :: blocks) others := by
      rw [reads_append]
      exact List.append_nil _
    show Parts _ (_ ++ (_ ++ reads options isOperation (⟨o, false, chained⟩ :: blocks)
      (others ++ [.tag (.closing closer)])))
    rw [hreads]
    exact parts_blockExpr (namingIn options isOperation blocks) o hbody.concat
      (.single hbranch.concat)
  | @SpellsBlock.chained _ o' _ _ _ tail _ _ _ _ inner plain chain =>
    obtain ⟨hblocks, hbody⟩ := inner.parts (⟨o, true, chained⟩ :: blocks)
    obtain ⟨htail, hchain⟩ := chain.parts (⟨o, false, chained⟩ :: blocks) true
    rw [namingIn_cons] at hbody
    have ho' : Opener.ofParams? false o'.params = some o' := by
      rw [← plain]
      rfl
    have hstep : Sign.step (⟨o, true, chained⟩ :: blocks) (.tag (.branch o'.params)) =
        ⟨o', true, true⟩ :: ⟨o, false, chained⟩ :: blocks := by
      simp only [Sign.step, ho', Option.elim, endBody]
    have hpaths : (Sign.tag (.branch o'.params)).paths isOperation = o'.paths isOperation := by
      simp only [Sign.paths, Tag.paths, ho', Option.elim]
    refine ⟨by rw [List.foldl_append, hblocks, List.foldl_cons, hstep]; exact htail, ?_⟩
    rw [reads_append, hblocks, reads_cons, hstep, hpaths]
    exact parts_blockExpr (namingIn options isOperation blocks) o hbody.concat
      (.single (PartsAll.single hchain).concat)

end

end

/-- Block parameters are scoped to the main body of their block. A template that is read without
`recurse` consists of what its paths are read as, in their order, and of nothing else that reads the
current context. A path that starts with a step, or with a parameter of a block whose main body it
stands in, is looked up in all scopes, and any other path is read from the current context. -/
theorem read_paths_scoped {source : String} {options : Options} {isOperation : String → Bool}
    {e : Expr} (hrecurse : options.recurse = false) (h : read source options isOperation = .ok e) :
    ∃ tokens parts, Token.ofText source = .ok tokens ∧ Parts e parts ∧
      List.Forall₂
        (fun o part => ¬IsHere o.path → ∃ base, o.ReadsAs isOperation base part)
        (occurrences isOperation [] (tokens.map Token.sign)) parts := by
  obtain ⟨tokens, nodes, ht, hn, rfl⟩ := read_eq_ok.mp h
  obtain ⟨-, hparts⟩ := (Spells.of_ofTokens hn).parts options isOperation []
  refine ⟨tokens, _, ht, hparts.concat, ?_⟩
  rw [reads, List.forall₂_map_right_iff, List.forall₂_same]
  exact fun o _ hhere => o.expr_readsAs hrecurse isOperation hhere

/-- The words of a tag that declares a parameter. -/
theorem readAll?_declaring :
    Param.readAll? ['a', ' ', 'a', 's', ' ', '|', 'x', '|'] =
      some [.plain (.path "a"), .block ["x"]] := by
  have hblock : Param.block? (2 * ['a', 's', ' ', '|', 'x', '|'].length + 1)
      ['a', 's', ' ', '|', 'x', '|'] = some (["x"], []) := by
    decide +kernel
  have hrest : Param.readAll? ['a', 's', ' ', '|', 'x', '|'] = some [.block ["x"]] := by
    unfold Param.readAll?
    rw [Param.params?_of_cons _ (c := 'a') rfl (by decide), Param.param?, hblock]
    rfl
  exact Param.readAll?_cons (c := 'a') (w := []) rfl (by decide) (fun _ => rfl)
    (Param.readAll?_gap hrest)

/-- A parameter in the main body of a block and in its else branch. -/
theorem read_paths_scoped_branch :
    let source := "\x7b\x7b#a as |x|\x7d\x7d\x7b\x7b\x7bx.y\x7d\x7d\x7d\x7b\x7belse\x7d\x7d" ++
      "\x7b\x7b\x7bx\x7d\x7d\x7d\x7b\x7b/a\x7d\x7d"
    let e : Expr := .call "a" [.named "as" (.literal (.array .new [.string "x"])),
      lookupExpr "x.y", .path (.ofText "x")]
    read source {} (fun _ => false) = .ok e ∧
      ∃ tokens parts, Token.ofText source = .ok tokens ∧ Parts e parts ∧
        List.Forall₂
          (fun o part => ¬IsHere o.path → ∃ base, o.ReadsAs (fun _ => false) base part)
          (occurrences (fun _ => false) [] (tokens.map Token.sign)) parts := by
  intro source e
  have hc : cut source.toList = [.tag ['#', 'a', ' ', 'a', 's', ' ', '|', 'x', '|'],
      .rawTag ['x', '.', 'y'], .tag ['e', 'l', 's', 'e'], .rawTag ['x'], .tag ['/', 'a']] := by
    decide
  have hopening : Tag.ofContents ['#', 'a', ' ', 'a', 's', ' ', '|', 'x', '|'] =
      .ok (.opening false [.plain (.path "a"), .block ["x"]]) := by
    show (paramsOf ['a', ' ', 'a', 's', ' ', '|', 'x', '|']).map (Tag.opening false) = _
    rw [paramsOf, readAll?_declaring]
    rfl
  have ht : Token.ofText source = .ok
      [.tag (.opening false [.plain (.path "a"), .block ["x"]]) ⟨0, 13⟩,
        .tag (.value false [.plain (.path "x.y")]) ⟨13, 22⟩, .tag (.branch []) ⟨22, 30⟩,
        .tag (.value false [.plain (.path "x")]) ⟨30, 37⟩, .tag (.closing "a") ⟨37, 43⟩] := by
    rw [Token.ofText, hc]
    simp only [Token.ofPieces, Piece.tag?, hopening]
    rfl
  have h : read source {} (fun _ => false) = .ok e := read_eq_ok.mpr ⟨_, _, ht, rfl, rfl⟩
  exact ⟨h, read_paths_scoped rfl h⟩

/-- Two words that stand where a value does and are not read: the mark of a line break, and what
follows the condition of a conditional. -/
theorem read_words_unread :
    (∃ e, read "\x7b\x7b\x7bNEWLINE\x7d\x7d\x7d" {} (fun _ => false) = .ok e ∧
      e ≠ .path (.ofText "NEWLINE") ∧ e = .text "\n") ∧
    ∃ e, read "\x7b\x7b#if a b\x7d\x7d\x7b\x7b/if\x7d\x7d" {} (fun _ => false) = .ok e ∧
      e = .call "if" [.path (.ofText "a"), .text ""] := by
  constructor
  · have hc : cut "\x7b\x7b\x7bNEWLINE\x7d\x7d\x7d".toList =
        [.rawTag ['N', 'E', 'W', 'L', 'I', 'N', 'E']] := by decide
    have ht : Token.ofText "\x7b\x7b\x7bNEWLINE\x7d\x7d\x7d" =
        .ok [.tag (.value false [.plain (.path "NEWLINE")]) ⟨0, 13⟩] := by
      rw [Token.ofText, hc]
      rfl
    exact ⟨.text "\n", read_eq_ok.mpr ⟨_, _, ht, rfl, rfl⟩, (by rintro ⟨⟩), rfl⟩
  · have hc : cut "\x7b\x7b#if a b\x7d\x7d\x7b\x7b/if\x7d\x7d".toList =
        [.tag ['#', 'i', 'f', ' ', 'a', ' ', 'b'], .tag ['/', 'i', 'f']] := by decide
    have ht : Token.ofText "\x7b\x7b#if a b\x7d\x7d\x7b\x7b/if\x7d\x7d" =
        .ok [.tag (.opening false [.plain (.path "if"), .plain (.path "a"), .plain (.path "b")])
          ⟨0, 11⟩, .tag (.closing "if") ⟨11, 18⟩] := by
      rw [Token.ofText, hc]
      rfl
    exact ⟨_, read_eq_ok.mpr ⟨_, _, ht, rfl, rfl⟩, rfl⟩

end Source

end Stencil
