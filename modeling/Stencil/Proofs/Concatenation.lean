import Stencil.Proofs.Adjoining
import Stencil.Proofs.Walk

/-!
# Rendering texts side by side

The expression of a body is the concatenation of its parts, but that of a body without parts is the
empty text, one part stands for itself, and texts that meet are one text. What is written is the
same in all of these cases: the outputs of the parts, one after the other. So a body that is put
behind another one writes its output behind that of the other, after the effects of the other, and
is not reached where the other one fails.

## Main results

* `output_concat`: what a body writes is what its parts write.
* `read_append_renders`: two template texts side by side write what the one and then the other does.
-/

namespace Stencil

/-! ### Parts one after the other -/

namespace Form

/-- What has been written stands before what is written. -/
theorem evalConcat_append_left (out more : String) (parts : List Lazy) (s : Scope) :
    evalConcat (out ++ more) parts s = (out ++ ·) <$> evalConcat more parts s := by
  induction parts generalizing more with
  | nil => simp [evalConcat]
  | cons part parts ih => simp [evalConcat, String.append_assoc, ih]

/-- Parts after parts write after them. -/
theorem evalConcat_append (out : String) (parts others : List Lazy) (s : Scope) :
    evalConcat out (parts ++ others) s =
      evalConcat out parts s >>= fun out => evalConcat out others s := by
  induction parts generalizing out with
  | nil => simp [evalConcat]
  | cons part parts ih => simp [evalConcat, ih]

/-- Two bodies one after the other write two outputs one after the other. -/
theorem evalConcat_append_eq (parts others : List Lazy) (s : Scope) :
    evalConcat "" (parts ++ others) s = do
      let x ← evalConcat "" parts s
      let y ← evalConcat "" others s
      return x ++ y := by
  rw [evalConcat_append]
  refine bind_congr fun out => ?_
  rw [← String.append_empty (s := out), evalConcat_append_left, String.append_empty,
    map_eq_pure_bind]

end Form

namespace Source

/-- Texts that meet write what they write one after the other. -/
theorem evalConcat_addPart (walk : Walk) (part : Expr) (parts : List Expr) (out : String)
    (s : Scope) :
    Form.evalConcat out ((addPart part parts).map (Expr.eval walk)) s =
      Form.evalConcat out ((part :: parts).map (Expr.eval walk)) s := by
  unfold addPart
  split
  · simp [Form.evalConcat, Expr.eval, Value.output, String.append_assoc]
  · rfl

/-- Merging neighbouring texts does not change what is written. -/
theorem evalConcat_foldr_addPart (walk : Walk) (parts : List Expr) (out : String) (s : Scope) :
    Form.evalConcat out ((parts.foldr addPart []).map (Expr.eval walk)) s =
      Form.evalConcat out (parts.map (Expr.eval walk)) s := by
  induction parts generalizing out with
  | nil => rfl
  | cons part parts ih =>
    rw [List.foldr_cons, evalConcat_addPart, List.map_cons, List.map_cons, Form.evalConcat_cons,
      Form.evalConcat_cons]
    exact bind_congr fun v => ih _

/-! ### Parts without names -/

/-- The expression of a path is no named argument. -/
theorem Naming.named?_pathExpr (naming : Naming) (text : String) :
    (naming.pathExpr text).named? = none := by
  unfold pathExpr
  dsimp only
  (repeat' split) <;> rfl

/-- The expression of a term is no named argument. -/
theorem named?_termExpr (naming : Naming) : ∀ term, (termExpr naming term).named? = none
  | .literal _ => rfl
  | .path text => naming.named?_pathExpr text
  | .group [] => rfl
  | .group (.plain (.path _) :: _) => rfl
  | .group (.plain (.literal _) :: _) => rfl
  | .group (.plain (.group params) :: _) => named?_termExpr naming (.group params)
  | .group (.named .. :: _) => rfl
  | .group (.block _ :: _) => rfl

/-- The expression of a node is no named argument. -/
theorem named?_nodeExpr (naming : Naming) (node : Node) : (nodeExpr naming node).named? = none := by
  cases node with
  | text | lineBreak | template => rfl
  | value escaped term =>
    rw [nodeExpr, written]
    split
    · rfl
    · exact named?_termExpr naming term
  | helper escaped name args =>
    rw [nodeExpr, written]
    split <;> rfl
  | block inverted head args body branch =>
    unfold nodeExpr blockExpr
    (repeat' split) <;> rfl

/-- The expressions of nodes are no named arguments. -/
theorem named?_nodeExprs (naming : Naming) (nodes : List Node) :
    ∀ part ∈ nodeExprs naming nodes, part.named? = none := by
  induction nodes with
  | nil => simp [nodeExprs]
  | cons node nodes ih =>
    rw [nodeExprs, List.forall_mem_cons]
    exact ⟨named?_nodeExpr naming node, ih⟩

/-- Adding a part keeps the parts without names. -/
theorem named?_addPart {part : Expr} {parts : List Expr} (hpart : part.named? = none)
    (h : ∀ p ∈ parts, p.named? = none) : ∀ p ∈ addPart part parts, p.named? = none := by
  unfold addPart
  split
  · exact List.forall_mem_cons.mpr ⟨rfl, (List.forall_mem_cons.mp h).2⟩
  · exact List.forall_mem_cons.mpr ⟨hpart, h⟩

/-- Merging parts keeps them without names. -/
theorem named?_foldr_addPart {parts : List Expr} (h : ∀ part ∈ parts, part.named? = none) :
    ∀ part ∈ parts.foldr addPart [], part.named? = none := by
  induction parts with
  | nil => simp
  | cons part parts ih =>
    obtain ⟨hpart, hparts⟩ := List.forall_mem_cons.mp h
    rw [List.foldr_cons]
    exact named?_addPart hpart (ih hparts)

end Source

/-- Arguments without names are all positional. -/
theorem positional_splitArgs {args : List Expr} (h : ∀ arg ∈ args, arg.named? = none) :
    (splitArgs args).positional = args := by
  suffices ∀ split : Split Expr,
      (args.foldl (Split.push Expr.named?) split).positional = split.positional ++ args from this {}
  induction args with
  | nil => simp
  | cons arg args ih =>
    obtain ⟨harg, hargs⟩ := List.forall_mem_cons.mp h
    intro split
    rw [List.foldl_cons, ih hargs, Split.push, harg]
    simp

namespace Source

/-- What a body writes is what its parts write, one after the other. -/
theorem output_concat {walk : Walk}
    (hcat : Keyed.find? "cat" walk.operations = some (.form .concat)) {parts : List Expr}
    (h : ∀ part ∈ parts, part.named? = none) (s : Scope) :
    Value.output <$> (concat parts).eval walk s =
      Form.evalConcat "" (parts.map (Expr.eval walk)) s := by
  rw [← evalConcat_foldr_addPart, concat]
  have hmerged := named?_foldr_addPart h
  generalize parts.foldr addPart [] = merged at hmerged ⊢
  rcases merged with _ | ⟨part, _ | ⟨other, parts⟩⟩
  · rfl
  · simp [Form.evalConcat]
  · have hget : walk.operations.get "cat" = .ok (.form .concat) := Operations.get_eq_ok.mpr hcat
    rw [Expr.eval_eq_run, Expr.layer_call hget]
    simp only [Operation.layer, positional_splitArgs hmerged, Layer.run, Form.eval]
    simp [Value.output]

/-- Two template texts side by side are read where both are, and render as the first one and then
the second one do: what is written stands side by side, the effects of the first one come before
those of the second one, and a failure is that of the first one, or else of the second one. This
holds for walks of all kinds, in every scope, of every engine that knows concatenation. -/
theorem read_append_renders {a b : String} {options : Options} {isOperation : String → Bool}
    {ea eb : Expr} (h : Adjoins a b) (ha : read a options isOperation = .ok ea)
    (hb : read b options isOperation = .ok eb) :
    ∃ e, read (a ++ b) options isOperation = .ok e ∧
      ∀ (engine : Engine), Keyed.find? "cat" engine.operations = some (.form .concat) →
        ∀ (depth : Nat) (mode : Mode) (s : Scope),
          Value.output <$> engine.evalExpr depth mode e s = do
            let x ← engine.evalExpr depth mode ea s
            let y ← engine.evalExpr depth mode eb s
            return x.output ++ y.output := by
  obtain ⟨nodes, others, rfl, rfl, hab⟩ := read_append h ha hb
  refine ⟨_, hab, fun engine hcat depth mode s => ?_⟩
  have hn := named?_nodeExprs { options, isOperation } nodes
  have ho := named?_nodeExprs { options, isOperation } others
  have hno := List.forall_mem_append.mpr ⟨hn, ho⟩
  unfold Engine.evalExpr
  generalize hw :
    ({ operations := engine.operations, mode, run := engine.runTemplate depth } : Walk) = walk
  have hcat : Keyed.find? "cat" walk.operations = some (.form .concat) := by rw [← hw, hcat]
  rw [output_concat hcat hno, List.map_append, Form.evalConcat_append_eq, ← output_concat hcat hn,
    ← output_concat hcat ho]
  simp

/-- A block, and a text with a value that follows it. -/
theorem read_append_renders_block :
    let a := "\x7b\x7b#x\x7d\x7d1\x7b\x7b/x\x7d\x7d"
    let b := "2\x7b\x7b&y\x7d\x7d"
    let ea : Expr := .call "section" [.path (.ofText "x"), .text "1"]
    let eb : Expr := .call "cat" [.text "2", .path (.ofText "y")]
    let engine : Engine := {}
    let s := Scope.root .null
    Adjoins a b ∧ read a {} (fun _ => false) = .ok ea ∧ read b {} (fun _ => false) = .ok eb ∧
      Keyed.find? "cat" engine.operations = some (.form .concat) ∧
      ∃ e, read (a ++ b) {} (fun _ => false) = .ok e ∧
        Value.output <$> engine.evalExpr 1 .sync e s = do
          let x ← engine.evalExpr 1 .sync ea s
          let y ← engine.evalExpr 1 .sync eb s
          return x.output ++ y.output := by
  intro a b ea eb engine s
  have hcut : cut a.toList = [.tag ['#', 'x'], .run ['1'], .tag ['/', 'x']] := by decide
  have hcut' : cut b.toList = [.run ['2'], .tag ['&', 'y']] := by decide
  have h : Adjoins a b :=
    { comments := fun hi =>
        absurd (hi.subset (by decide : '~' ∈ commentEnd true)) (by decide : '~' ∉ a.toList)
      brace := by decide
      carriage := by decide
      lineBreak := fun _ text hm => by
        rw [hcut'] at hm
        obtain rfl : ['2'] = text := Option.some.inj hm
        rfl }
  have ht : Token.ofText a = .ok [.tag (.opening false [.plain (.path "x")]) ⟨0, 6⟩, .text "1",
      .tag (.closing "x") ⟨7, 13⟩] := by
    rw [Token.ofText, hcut]
    rfl
  have ht' : Token.ofText b = .ok [.text "2", .tag (.value false [.plain (.path "y")]) ⟨1, 7⟩] := by
    rw [Token.ofText, hcut']
    rfl
  have ha : read a {} (fun _ => false) = .ok ea := read_eq_ok.mpr ⟨_, _, ht, rfl, rfl⟩
  have hb : read b {} (fun _ => false) = .ok eb := read_eq_ok.mpr ⟨_, _, ht', rfl, rfl⟩
  have hcat : Keyed.find? "cat" engine.operations = some (.form .concat) := rfl
  obtain ⟨e, he, hrun⟩ := read_append_renders h ha hb
  exact ⟨h, ha, hb, hcat, e, he, hrun engine hcat 1 .sync s⟩

end Source

end Stencil
