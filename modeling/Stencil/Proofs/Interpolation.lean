import Stencil.Proofs.Concatenation
import Stencil.Proofs.Determinism
import Stencil.Proofs.Fallback

/-!
# A field between two texts

A template that writes one field, with text before it and after it, is read as the concatenation of
the texts and the field, where a text that is empty leaves no part behind. Built in any of the four
ways it renders the texts as they are, and between them the field of the data: escaped, or as it is
when it was asked for so. Rendering marks the containers of the data first, which nothing that is
written here shows.

## Main results

* `Source.readPieces_field`: the expression of a text whose pieces are a run, a tag and a run.
* `Engine.Writes.yields`: what is known to write something is built in every strategy, and renders
  what it writes.
* `Engine.writes_field`: what a field between two texts writes.
-/

namespace Stencil

open Source

/-! ### Names that a tag may start with -/

/-- A name that a tag may hold on its own, and that is taken for nothing but a name there. -/
structure PlainName (name : String) : Prop extends BareName name where
  ne_sigil : ∀ c ∈ ['!', '#', '^', '>', '&'], name.toList.head? ≠ some c
  ne_else : name ≠ "else"

namespace PlainName

variable {name : String}

/-- A plain name does not begin with a slash. -/
theorem ne_slash (h : PlainName name) : name.toList.head? ≠ some '/' := fun hfirst =>
  h.notMem_of_isSeparator rfl (List.mem_of_head? hfirst)

/-- A tag that holds the name writes a value. -/
theorem ofContents_eq (h : PlainName name) :
    Tag.ofContents name.toList = .ok (.value true [.plain (.path name)]) := by
  have hparams : (paramsOf name.toList).map (Tag.value true) =
      .ok (.value true [.plain (.path name)]) := by
    rw [paramsOf, h.readAll?_eq]
    rfl
  have hsigil : ∀ {c cs}, c ∈ ['!', '#', '^', '>', '&'] → name.toList ≠ c :: cs :=
    fun hc hname => h.ne_sigil _ hc (by rw [hname]; rfl)
  unfold Tag.ofContents
  rw [h.withoutMarks_eq]
  dsimp only
  split
  · next hname => exact absurd hname (hsigil (by simp))
  · next hname => exact absurd hname (hsigil (by simp))
  · next hname => exact absurd hname (hsigil (by simp))
  · next hname => exact absurd (by rw [hname]; rfl) h.ne_slash
  · next hname => exact absurd hname (hsigil (by simp))
  · next hname => exact absurd hname (hsigil (by simp))
  · next words hname =>
    cases words with
    | nil => exact absurd (String.toList_inj.mp hname) h.ne_else
    | cons c words =>
      have hc : c ∈ name.toList := by simp [hname]
      rw [endsWord, if_neg (by simp [h.isBlank_eq hc])]
      exact hparams
  · exact hparams

/-- The tag of a plain name is the value of its path. -/
theorem tag?_eq (h : PlainName name) :
    Piece.tag? (.tag name.toList) = some (.ok (.value true [.plain (.path name)])) :=
  congrArg some h.ofContents_eq

/-- The first two closing braces after the name close its tag. -/
theorem breakAtClosing_eq (h : PlainName name) (rest : List Char) :
    breakAtClosing none (name.toList ++ closing ++ rest) = some (name.toList, rest) := by
  have hnotMem : ∀ c, Term.isWordChar c = false → c ∉ name.toList := fun c => h.notMem
  have hquote := hnotMem '"' (by decide)
  have happ := hnotMem '\'' (by decide)
  have hbrace := hnotMem '\x7d' (by decide)
  generalize name.toList = cs at hquote happ hbrace ⊢
  induction cs with
  | nil => rfl
  | cons c cs ih =>
    rw [List.mem_cons, not_or] at hquote happ hbrace
    have hc : ¬(c = '"' ∨ c = '\'') := by
      rintro (rfl | rfl)
      · exact hquote.1 rfl
      · exact happ.1 rfl
    simp only [List.cons_append, breakAtClosing, if_neg hc]
    split
    · next hmatch => exact absurd rfl hbrace.1
    · rw [ih hquote.2 happ.2 hbrace.2]
      rfl

end PlainName

namespace Source

variable {name : String}

/-! ### Reading -/

/-- The tag that writes a name escaped. -/
def valueTag (name : String) : List Char :=
  opening ++ name.toList ++ closing

/-- A text that has no tag and does not end in a brace, a tag, and a text without a tag are cut into
just these. -/
theorem cut_tag {before rest after : List Char} {piece : Piece}
    (hbefore : Text.breakAt opening before = none) (hlast : before.getLast? ≠ some '\x7b')
    (htag : cutTag rest = (piece, after)) (hafter : Text.breakAt opening after = none) :
    cut (before ++ opening ++ rest) = runOf before ++ piece :: runOf after := by
  have hbreak : Text.breakAt opening (before ++ (opening ++ rest)) = some (before, rest) := by
    have hfirst : Text.breakAt opening (opening ++ rest) = some ([], rest) := rfl
    simp only [breakAt_opening_append hbefore hlast, hfirst, Option.map_some, List.append_nil]
  rw [List.append_assoc, cut_eq_cons hbreak htag, cut_of_none hafter]

/-- The tag of a plain name is cut at its closing braces. -/
theorem cutTag_name (h : PlainName name) (after : List Char) :
    cutTag (name.toList ++ closing ++ after) = (.tag name.toList, after) := by
  obtain ⟨c, cs, hcs⟩ := h.exists_cons
  have hword := h.isWordChar_of_mem c (by simp [hcs])
  have hcomment : startsComment (name.toList ++ closing ++ after) = false := by
    have hbang : c ≠ '!' := fun hc => h.ne_sigil '!' (by simp) (by rw [hcs, hc]; rfl)
    have htilde : c ≠ '~' := by
      rintro rfl
      cases hword
    unfold startsComment
    split
    · next hmatch =>
      rw [hcs] at hmatch
      exact absurd (List.cons.inj hmatch).1 htilde
    · simp [hcs, List.isPrefixOf, hbang.symm]
  unfold cutTag
  split
  · next raw hraw =>
    rw [hcs] at hraw
    obtain rfl : c = '\x7b' := (List.cons.inj hraw).1
    cases hword
  · rw [hcomment, h.breakAtClosing_eq]
    rfl

/-- The tag of a name between two texts. -/
theorem cut_valueTag (h : PlainName name) {before after : List Char}
    (hbefore : Text.breakAt opening before = none) (hlast : before.getLast? ≠ some '\x7b')
    (hafter : Text.breakAt opening after = none) :
    cut (before ++ valueTag name ++ after) = runOf before ++ .tag name.toList :: runOf after := by
  rw [← cut_tag hbefore hlast (cutTag_name h after) hafter, valueTag]
  simp only [List.append_assoc]

/-- The expression of a text, unless it is empty. -/
def textExprs (cs : List Char) : List Expr :=
  if cs.isEmpty then [] else [.text (String.ofList cs)]

/-- The nodes of a text, unless it is empty. -/
def textNodes (cs : List Char) : List Node :=
  if cs.isEmpty then [] else [.text (String.ofList cs)]

/-- The tokens of text spell its nodes. -/
theorem spells_textTokens (cs : List Char) :
    Spells ((textTokens cs).map Token.sign) (textNodes cs) := by
  cases cs with
  | nil => exact .nil
  | cons c cs => exact .text _ .nil

/-- A run of text in front only adds its tokens. -/
theorem ofPieces_runOf (offset : Nat) (cs : List Char) (pieces : List Piece) : ∃ next,
    Token.ofPieces offset false (runOf cs ++ pieces) =
      (Token.ofPieces next false pieces).map (textTokens cs ++ ·) := by
  cases cs with
  | nil =>
    refine ⟨offset, ?_⟩
    show Token.ofPieces offset false pieces = _
    cases Token.ofPieces offset false pieces <;> rfl
  | cons c cs => exact ⟨_, Token.ofPieces_run offset (c :: cs) pieces⟩

/-- The tokens of a run, a tag and a run. -/
theorem ofPieces_field {piece : Piece} {escaped : Bool} {params : List Param}
    (h : piece.tag? = some (.ok (.value escaped params))) (before after : List Char) :
    ∃ span, Token.ofPieces 0 false (runOf before ++ piece :: runOf after) =
      .ok (textTokens before ++ .tag (.value escaped params) span :: textTokens after) := by
  obtain ⟨next, hbefore⟩ := ofPieces_runOf 0 before (piece :: runOf after)
  obtain ⟨last, hafter⟩ := ofPieces_runOf (next + Text.byteSize piece.text) after []
  rw [List.append_nil] at hafter
  refine ⟨Span.ofBytes next (next + Text.byteSize piece.text), ?_⟩
  rw [hbefore]
  simp only [Token.ofPieces, h, Tag.eatsLineBreak]
  rw [hafter]
  simp [Token.ofPieces, Except.map, bind, Except.bind, pure, Except.pure]

/-- The expression of a field of the context, escaped or as it is. -/
def fieldExpr (escaped : Bool) (name : String) : Expr :=
  if escaped then .call "escape" [.path ⟨[name]⟩] else .path ⟨[name]⟩

/-- The expression of a field between two texts. -/
def fieldBetween (before : List Char) (escaped : Bool) (name : String) (after : List Char) : Expr :=
  concat (textExprs before ++ fieldExpr escaped name :: textExprs after)

/-- Without a text there is nothing to concatenate. -/
theorem fieldBetween_nil (escaped : Bool) (name : String) :
    fieldBetween [] escaped name [] = fieldExpr escaped name := by
  cases escaped <;> rfl

/-- A field with text beside it is joined with the text. -/
theorem fieldBetween_of_ne {before after : List Char} (h : before ++ after ≠ []) (escaped : Bool)
    (name : String) : fieldBetween before escaped name after =
      .call "cat" (textExprs before ++ fieldExpr escaped name :: textExprs after) := by
  cases before with
  | nil =>
    cases after with
    | nil => exact absurd rfl h
    | cons c after => cases escaped <;> rfl
  | cons c before => cases escaped <;> cases after <;> rfl

/-- A name that is no operation is a field of the context. -/
theorem pathExpr_field (h : BareName name) {isOperation : String → Bool}
    (hoperation : isOperation name = false) :
    Naming.pathExpr { options := {}, isOperation } name = .path ⟨[name]⟩ := by
  have hpoint : name.toList.head? ≠ some '.' := fun hhead =>
    h.notMem_of_isSeparator rfl (List.mem_of_head? hhead)
  have hthis : ¬(name = "this" ∨ name = ".") := by
    rintro (rfl | rfl)
    · exact h.ne_this rfl
    · exact hpoint rfl
  unfold Naming.pathExpr
  rw [if_neg hthis, startsWith_bareName "@" rfl h.ne_at, afterThis?_bareName h]
  simp [startsWith_bareName "../" rfl hpoint, startsWith_bareName "./" rfl hpoint,
    firstSegment_bareName h, hoperation, ofText_bareName h]

/-- The expression of a text whose pieces are a run, a tag that writes a name, and a run. -/
theorem readPieces_field (h : BareName name) {isOperation : String → Bool}
    (hoperation : isOperation name = false) {source : String} {before after : List Char}
    {piece : Piece} {escaped : Bool}
    (hpiece : piece.tag? = some (.ok (.value escaped [.plain (.path name)])))
    (hcut : cut source.toList = runOf before ++ piece :: runOf after) :
    read source {} isOperation = .ok (fieldBetween before escaped name after) := by
  obtain ⟨span, htokens⟩ := ofPieces_field hpiece before after
  have hnode : Node.ofValue escaped [.plain (.path name)] = .ok (.value escaped (.path name)) := by
    rw [Node.ofValue]
    rintro ⟨⟩
    exact h.ne_lineBreak rfl
  have hspells : Spells ((textTokens before ++
      .tag (.value escaped [.plain (.path name)]) span :: textTokens after).map Token.sign)
      (textNodes before ++ .value escaped (.path name) :: textNodes after) := by
    rw [List.map_append, List.map_cons]
    exact (spells_textTokens before).append (.value hnode (spells_textTokens after))
  have hfield : nodeExpr { options := {}, isOperation } (.value escaped (.path name)) =
      fieldExpr escaped name := by
    rw [nodeExpr, termExpr, pathExpr_field h hoperation]
    cases escaped <;> rfl
  have htext : ∀ text, nodeExpr { options := {}, isOperation } (.text text) = .text text :=
    fun _ => rfl
  refine read_eq_ok.mpr ⟨_, _, by rw [Token.ofText, hcut, htokens], hspells.ofTokens, ?_⟩
  cases before <;> cases after <;>
    simp [textNodes, textExprs, nodeExprs, hfield, htext, fieldBetween]

/-- A tag that writes a name between two texts writes its field escaped. -/
theorem read_valueTag (h : PlainName name) {isOperation : String → Bool}
    (hoperation : isOperation name = false) {before after : List Char}
    (hbefore : Text.breakAt opening before = none) (hlast : before.getLast? ≠ some '\x7b')
    (hafter : Text.breakAt opening after = none) :
    read (String.ofList (before ++ valueTag name ++ after)) {} isOperation =
      .ok (fieldBetween before true name after) := by
  refine readPieces_field h.toBareName hoperation h.tag?_eq ?_
  rw [String.toList_ofList, cut_valueTag h hbefore hlast hafter]

end Source

/-! ### Writing -/

namespace Engine

variable {engine : Engine}

/-- The method that escapes. -/
def escaping : Method where
  name := "escape"
  deterministic := true
  run args := .ok (Builtin.escape args)

/-- Concatenation and escaping are known under their names. -/
structure Interpolates (engine : Engine) : Prop where
  cat : Keyed.find? "cat" engine.operations = some (.form .concat)
  escape : Keyed.find? "escape" engine.operations = some (.method escaping)

/-- In every scope the code ends in a value whose output the context alone settles. -/
def Shows (engine : Engine) (c : Code) (text : Value → String) : Prop :=
  ∀ depth mode s E, ∃ w E', c.eval (engine.host depth mode) s E = some (.ok w, E') ∧
    w.output = text s.context

/-- Code that always ends with a value of the right output shows it. -/
theorem Shows.of_pure {c : Code} {text : Value → String}
    (h : ∀ depth mode s, ∃ w, c.eval (engine.host depth mode) s = pure w ∧
      w.output = text s.context) : engine.Shows c text := by
  intro depth mode s E
  obtain ⟨w, heval, hw⟩ := h depth mode s
  exact ⟨w, E, by rw [heval]; rfl, hw⟩

/-- Parts that show texts are concatenated into one that shows the texts one after the other. -/
theorem Shows.concat {c : Code} (cs : List Code) {texts : List (Value → String)}
    (hlayer : ∀ mode, c.layer engine.operations mode = .form .concat cs)
    (h : List.Forall₂ engine.Shows cs texts) :
    engine.Shows c fun context => String.join (texts.map fun text => text context) := by
  intro depth mode s E
  have hparts : ∀ out E, ∃ E',
      Form.evalConcat out (cs.map (Code.eval (engine.host depth mode))) s E =
        some (.ok (out ++ String.join (texts.map fun text => text s.context)), E') := by
    clear hlayer
    induction h with
    | nil =>
      intro out E
      refine ⟨E, ?_⟩
      rw [List.map_nil, List.map_nil, String.join_nil, String.append_empty]
      rfl
    | @cons c text cs texts hc _ ih =>
      intro out E
      obtain ⟨w, E₁, heval, hw⟩ := hc depth mode s E
      obtain ⟨E₂, hrest⟩ := ih (out ++ w.output) E₁
      refine ⟨E₂, ?_⟩
      rw [List.map_cons, Form.evalConcat_cons, EvalM.bind_apply, heval, List.map_cons,
        String.join_cons, ← hw, ← String.append_assoc]
      exact hrest
  obtain ⟨E', hrun⟩ := hparts "" E
  refine ⟨.string (String.join (texts.map fun text => text s.context)), E', ?_, rfl⟩
  rw [Code.eval_eq_run]
  show (c.layer engine.operations mode).run _ _ s E = _
  rw [hlayer]
  show (Form.evalConcat "" (cs.map (Code.eval (engine.host depth mode))) s >>= fun out =>
    pure (Value.string out)) E = _
  rw [EvalM.bind_apply, hrun, String.empty_append]
  rfl

/-- What the data shows, as far as nobody looks at marks, rendering the code shows. -/
theorem Shows.renders {T : Template} {text : Value → String} (h : engine.Shows T.body.code text)
    (halike : ∀ v w, v.Alike .bare w → text v = text w) (depth : Nat) (data : Value) (F : Effects) :
    ∃ F', T.render engine (depth + 1) data F = some (.ok (text data), F') := by
  rcases hmarked : Value.marked F.run data F.made with ⟨marked, made⟩
  have hdata : marked.Alike .bare data := by
    have hunmarked := Value.unmarked_marked F.run data F.made
    rwa [hmarked] at hunmarked
  have hsettle : EvalM.settle data F = some (.ok marked, { F with made }) := by
    rw [EvalM.settle, hmarked]
  obtain ⟨w, F', heval, hw⟩ := h depth (T.body.mode T.mode) (Scope.root marked) { F with made }
  refine ⟨F', ?_⟩
  rw [Template.render, EvalM.bind_apply, hsettle]
  show (engine.runTemplate (depth + 1) T.mode T.body (Scope.root marked) >>= fun v =>
    pure v.output) { F with made } = _
  rw [runTemplate_succ, EvalM.bind_apply, heval, ← halike marked data hdata]
  exact congrArg (fun text => some (Except.ok text, F')) hw

end Engine

/-- A path leads to values that look alike where the contexts do. -/
theorem Value.Alike.resolve {marks : Sight} {v w : Value} (h : v.Alike marks w) (p : Path) :
    (p.resolve v).Alike marks (p.resolve w) := by
  unfold Value.Alike Path.resolve
  rw [← Value.read_seen, ← Value.read_seen, h]

namespace Engine

variable {engine : Engine}

/-- The expression is built in every strategy, and writes a text that is settled by the data, marks
aside. -/
structure Writes (engine : Engine) (e : Expr) (text : Value → String) : Prop where
  unnamed : e.named? = none
  calls : ∀ c ∈ e.calls, ∃ op, Keyed.find? c.1 engine.operations = some op ∧ op.supportsSync = true
  alike : ∀ v w, v.Alike .bare w → text v = text w
  walked : engine.Shows (.walked e) text
  built : ∃ f, f.shape = .sync ∧ engine.Shows (.built f) text ∧
    ∀ depth E, engine.build depth e E = some (.ok f, E)

/-- With default options the text is read, in every strategy it is built, and for all data the
template is rendered to a text that is settled by the data. -/
def Yields (engine : Engine) (source : String) (text : Value → String) : Prop :=
  ∃ e, engine.read source {} = .ok e ∧
    ∀ strategy depth E, ∃ T, engine.buildTemplate depth strategy e E = some (.ok T, E) ∧
      ∀ depth' data F, ∃ F', T.render engine (depth' + 1) data F = some (.ok (text data), F')

namespace Writes

variable {e : Expr} {text : Value → String}

/-- What writes something is refused in no mode. -/
theorem checkWalk_eq (h : engine.Writes e text) (mode : Mode) :
    engine.checkWalk mode e = .ok () := by
  have hnone : ∀ sought : Operation → Bool, (∀ op, op.supportsSync = true → sought op = false) →
      e.firstOperation? engine.operations sought = none := by
    refine fun sought hsought => Expr.firstOperation?_eq_none.mpr fun c hc => ?_
    obtain ⟨op, hop, hsync⟩ := h.calls c hc
    exact ⟨op, hop, hsought op hsync⟩
  cases mode with
  | sync =>
    have hasync : e.firstAsync? engine.operations = none := hnone _ fun op hop => by simp [hop]
    rw [checkWalk, hasync]
  | awaited =>
    have hunknown : e.firstUnknown? engine.operations = none := hnone _ fun _ _ => rfl
    rw [checkWalk, hunknown]

/-- What writes a text is built in every strategy, and renders this text. -/
theorem renders (h : engine.Writes e text) (strategy : Strategy) (depth : Nat) (E : Effects) :
    ∃ T, engine.buildTemplate depth strategy e E = some (.ok T, E) ∧
      ∀ depth' data F, ∃ F', T.render engine (depth' + 1) data F = some (.ok (text data), F') := by
  obtain ⟨_ | _, mode⟩ := strategy
  · refine ⟨⟨mode, engine.interpretedBody e⟩, ?_, fun depth' data F =>
      Shows.renders h.walked h.alike depth' data F⟩
    unfold buildTemplate
    simp only [Bool.false_eq_true, if_false, h.checkWalk_eq]
    rfl
  · obtain ⟨f, hshape, hshows, hbuild⟩ := h.built
    have hcheck : checkFragment mode f = .ok () := by
      rw [checkFragment_eq, if_neg (by simp [hshape])]
    refine ⟨⟨mode, .compiled f⟩, ?_, fun depth' data F =>
      Shows.renders hshows h.alike depth' data F⟩
    unfold buildTemplate
    simp only [if_true]
    rw [EvalM.bind_apply, hbuild]
    show (EvalM.ofExcept (checkFragment mode f) >>= fun _ => pure _) E = _
    rw [hcheck]
    rfl

/-- A text whose expression writes something is rendered to what is written. -/
theorem yields {source : String} (h : engine.Writes e text)
    (hread : engine.read source {} = .ok e) : engine.Yields source text :=
  ⟨e, hread, h.renders⟩

/-- A text writes itself. -/
protected theorem text (engine : Engine) (text : String) :
    engine.Writes (.text text) fun _ => text where
  unnamed := rfl
  calls _ h := absurd h List.not_mem_nil
  alike _ _ _ := rfl
  walked := .of_pure fun _ _ _ => ⟨_, rfl, rfl⟩
  built := ⟨_, rfl, .of_pure fun _ _ _ => ⟨.string text, rfl, rfl⟩, fun _ _ => rfl⟩

/-- A field writes its output. -/
theorem path (engine : Engine) (p : Path) :
    engine.Writes (.path p) fun context => (p.resolve context).output where
  unnamed := rfl
  calls _ h := absurd h List.not_mem_nil
  alike _ _ hvw := (hvw.resolve p).output
  walked := .of_pure fun _ _ _ => ⟨_, rfl, rfl⟩
  built := ⟨_, rfl, .of_pure fun _ _ s => ⟨p.resolve s.context, rfl, rfl⟩, fun _ _ => rfl⟩

end Writes

end Engine

/-- What the output of a value is when it is written escaped. -/
def Value.escapedOutput (v : Value) : String :=
  (Builtin.escape { positional := [v] }).output

/-- Escaping looks at no marks. -/
theorem Value.Alike.escapedOutput {v w : Value} (h : v.Alike .bare w) :
    v.escapedOutput = w.escapedOutput := by
  have hseen : ∀ v : Value, Builtin.escape { positional := [v.seen .bare] } =
      (Builtin.escape { positional := [v] }).seen .bare := fun v => by
    cases v <;> rfl
  unfold Value.escapedOutput
  rw [← @Value.output_seen .bare, ← hseen, h, hseen, Value.output_seen]

namespace Engine

variable {engine : Engine}

/-- A part that evaluates to a value without effects, and is passed to the method that escapes,
shows this value escaped. -/
theorem Shows.escape {c : Code} (part : Code) {field : Value → Value}
    (hlayer : ∀ mode, c.layer engine.operations mode = .method escaping [(none, part)])
    (hpart : ∀ depth mode s, part.eval (engine.host depth mode) s = pure (field s.context)) :
    engine.Shows c fun context => (field context).escapedOutput := by
  intro depth mode s E
  rcases hmarked : (Builtin.escape { positional := [field s.context] }).marked E.run E.made with
    ⟨w, made⟩
  have hcall : escaping.call { positional := [field s.context] } E =
      some (.ok w, { E with log := E.log ++ [], made }) := by
    show EvalM.settle (Builtin.escape { positional := [field s.context] })
      { E with log := E.log ++ [] } = _
    simp only [EvalM.settle, hmarked]
  refine ⟨w, { E with log := E.log ++ [], made }, ?_, ?_⟩
  · rw [Code.eval_eq_run]
    show (c.layer engine.operations mode).run _ _ s E = _
    rw [hlayer]
    show (evalBuiltArguments [(none, part.eval (engine.host depth mode))] {} s >>=
      escaping.call) E = _
    simp only [evalBuiltArguments, hpart, pure_bind]
    exact hcall
  · have hout := Value.output_marked E.run (Builtin.escape { positional := [field s.context] })
      E.made
    rw [hmarked] at hout
    exact hout

/-- To escape is one of the operations. -/
theorem Interpolates.get_escape (h : engine.Interpolates) :
    engine.operations.get "escape" = .ok (.method escaping) := Operations.get_eq_ok.mpr h.escape

/-- To concatenate is one of the operations. -/
theorem Interpolates.get_cat (h : engine.Interpolates) :
    engine.operations.get "cat" = .ok (.form .concat) := Operations.get_eq_ok.mpr h.cat

namespace Writes

/-- A field that is escaped writes its escaped output. -/
theorem escape (h : engine.Interpolates) (p : Path) :
    engine.Writes (.call "escape" [.path p]) fun context => (p.resolve context).escapedOutput where
  unnamed := rfl
  calls := by
    intro c hc
    obtain rfl := List.mem_singleton.mp hc
    exact ⟨_, h.escape, rfl⟩
  alike _ _ hvw := (hvw.resolve p).escapedOutput
  walked := by
    refine Shows.escape (.walked (.path p)) (fun mode => ?_) fun _ _ _ => rfl
    rw [Code.layer, Expr.layer_call h.get_escape]
    rfl
  built := by
    refine ⟨.method escaping [(none, .path p)], rfl,
      Shows.escape (.built (.path p)) (fun mode => rfl) fun _ _ _ => rfl,
      fun depth E => ?_⟩
    have hfold := engine.tryFold_eq_none (e := .call "escape" [.path p]) (fun registry => by
      simp [Expr.isDeterministic, Expr.determinacy, h.escape, Operand.ofLists, Expr.determinacies,
        Operation.determinacy]) depth E
    rw [build_call engine depth h.get_escape, EvalM.bind_apply, hfold]
    rfl

section Parts

variable {es : List Expr} {texts : List (Value → String)}

/-- Parts that write something are built one after the other. -/
theorem exists_built (h : List.Forall₂ engine.Writes es texts) :
    ∃ fs : List Fragment, Fragment.shapeAll fs = .sync ∧
      List.Forall₂ engine.Shows (fs.map Code.built) texts ∧
      ∀ depth E, buildAll (es.map (engine.build depth)) E = some (.ok fs, E) := by
  induction h with
  | nil => exact ⟨[], rfl, .nil, fun _ _ => rfl⟩
  | @cons e text es texts he _ ih =>
    obtain ⟨fs, hshapes, hshow, hbuilds⟩ := ih
    obtain ⟨f, hshape, hshows, hbuild⟩ := he.built
    refine ⟨f :: fs, ?_, .cons hshows hshow, fun depth E => ?_⟩
    · rw [Fragment.shapeAll, hshape, hshapes]
      rfl
    · rw [List.map_cons, buildAll, EvalM.bind_apply, hbuild]
      show (buildAll (es.map (engine.build depth)) >>= fun fs => pure (f :: fs)) E = _
      rw [EvalM.bind_apply, hbuilds]
      rfl

/-- A call of which an argument hangs on the scope is not folded. -/
theorem tryFold_cat (h : engine.Interpolates)
    (hopen : ∃ e ∈ es, ∀ registry, e.isDeterministic engine.operations registry = false)
    (depth : Nat) (E : Effects) :
    engine.tryFold depth (.call "cat" es) E = some (.ok none, E) := by
  refine engine.tryFold_eq_none (fun registry => ?_) depth E
  obtain ⟨e, he, hdet⟩ := hopen
  have hmade : Operand.of (Expr.determinacy engine.operations registry) e ∈
      Operand.ofLists es (Expr.determinacies engine.operations registry es) := by
    rw [Expr.determinacies_eq_map, Operand.ofLists_map]
    exact List.mem_map_of_mem he
  rw [Expr.isDeterministic, Expr.determinacy, h.cat]
  refine List.all_eq_false.mpr ⟨_, hmade, ?_⟩
  rw [Bool.not_eq_true]
  exact hdet registry

/-- The concatenation of parts writes what the parts do, one after the other. One of the parts hangs
on the scope, so that nothing is folded. -/
theorem cat (h : engine.Interpolates) (hparts : List.Forall₂ engine.Writes es texts)
    (hopen : ∃ e ∈ es, ∀ registry, e.isDeterministic engine.operations registry = false) :
    engine.Writes (.call "cat" es) fun context =>
      String.join (texts.map fun text => text context) := by
  have hwrites : ∀ e ∈ es, ∃ text, engine.Writes e text := fun e he => by
    obtain ⟨text, -, he⟩ := Layer.exists_of_forall₂ hparts.flip he
    exact ⟨text, he⟩
  have hunnamed : ∀ e ∈ es, e.named? = none :=
    fun e he => (hwrites e he).elim fun _ he => he.unnamed
  obtain ⟨fs, hshapes, hshows, hbuilds⟩ := exists_built hparts
  refine ⟨rfl, ?_, fun v w hvw => ?_, .concat (es.map Code.walked) (fun mode => ?_) ?_,
    .form .concat fs, hshapes,
    .concat _ (fun mode => rfl) hshows, fun depth E => ?_⟩
  · intro c hc
    rcases List.mem_cons.mp hc with rfl | hc
    · exact ⟨_, h.cat, rfl⟩
    · obtain ⟨e, he, hc⟩ := Expr.exists_of_mem_callsIn hc
      exact (hwrites e he).elim fun _ he => he.calls c hc
  · refine congrArg String.join (List.map_congr_left fun text htext => ?_)
    obtain ⟨e, -, he⟩ := Layer.exists_of_forall₂ hparts htext
    exact he.alike v w hvw
  · rw [Code.layer, Expr.layer_call h.get_cat, Operation.layer, positional_splitArgs hunnamed]
    rfl
  · exact List.forall₂_map_left_iff.mpr (hparts.imp fun _ _ he => he.walked)
  · have hpositional : Operand.positional (Operand.ofLists es (es.map (engine.build depth))) =
        es.map (engine.build depth) := by
      rw [Operand.positional_map fun _ _ => rfl, positional_splitArgs hunnamed]
    have hmark : engine.markAwaiting "cat" es (.form .concat fs) = .form .concat fs := by
      rw [markAwaiting, if_neg (by simp [Fragment.shape, hshapes])]
    rw [build_call engine depth h.get_cat, EvalM.bind_apply, tryFold_cat h hopen]
    show ((do
        let parts ← buildAll (Operand.positional (Operand.ofLists es (es.map (engine.build depth))))
        pure (Fragment.form .concat parts)) >>= fun f =>
          pure (engine.markAwaiting "cat" es f)) E = _
    rw [hpositional, bind_assoc, EvalM.bind_apply, hbuilds]
    exact congrArg (fun f => some (Except.ok f, E)) hmark

end Parts

end Writes

/-! ### A field between two texts -/

/-- What a field writes, escaped or as it is. -/
def fieldText (escaped : Bool) (v : Value) : String :=
  if escaped then v.escapedOutput else v.output

/-- A field between two texts writes the texts as they are and the field between them. -/
theorem writes_field (h : engine.Interpolates) (before : List Char) (escaped : Bool) (name : String)
    (after : List Char) :
    engine.Writes (fieldBetween before escaped name after) fun context =>
      String.ofList before ++ fieldText escaped (context.read [name]) ++ String.ofList after := by
  have hfield : engine.Writes (fieldExpr escaped name) fun context =>
      fieldText escaped (context.read [name]) := by
    cases escaped with
    | true => exact .escape h ⟨[name]⟩
    | false => exact .path engine ⟨[name]⟩
  have hopen : ∀ registry, (fieldExpr escaped name).isDeterministic engine.operations registry =
      false := by
    intro registry
    cases escaped with
    | true =>
      simp [fieldExpr, Expr.isDeterministic, Expr.determinacy, h.escape, Operand.ofLists,
        Expr.determinacies, Operation.determinacy]
    | false => rfl
  have htexts : ∀ cs, ∃ texts, List.Forall₂ engine.Writes (textExprs cs) texts ∧
      ∀ context : Value, String.join (texts.map fun text => text context) = String.ofList cs := by
    intro cs
    cases cs with
    | nil => exact ⟨[], .nil, fun _ => rfl⟩
    | cons c cs => exact ⟨_, .cons (.text engine _) .nil, fun _ => by simp⟩
  by_cases hempty : before ++ after = []
  · obtain ⟨rfl, rfl⟩ := List.append_eq_nil_iff.mp hempty
    simpa [fieldBetween_nil] using hfield
  · obtain ⟨first, hfirst, hjoinFirst⟩ := htexts before
    obtain ⟨last, hlast, hjoinLast⟩ := htexts after
    have hparts := List.rel_append hfirst (.cons hfield hlast)
    have hcat := Writes.cat h hparts ⟨_, List.mem_append_right _ List.mem_cons_self, hopen⟩
    rw [fieldBetween_of_ne hempty]
    simpa [String.join_append, hjoinFirst, hjoinLast, String.append_assoc] using hcat

end Engine

end Stencil
