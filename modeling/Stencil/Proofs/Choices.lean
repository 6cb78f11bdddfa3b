import Stencil.Proofs.Chains
import Stencil.Proofs.Concatenation
import Stencil.Proofs.Rejections

/-!
# Choices

A call of `if` has its conditions and bodies in one list of arguments: a branch that is a choice
itself is taken apart, and its arguments take the place of the branch. Where the arguments end then
tells what the last one is, a body or what is left without a condition that is met. Nothing is lost
by this. Since a choice among the arguments that are left is a choice on its own, walking them is
the same as walking the branch, and so it is for what is built from them.

With folding a call may become a constant instead of being built from its arguments. The results
about what is built are for building without it, which has no effects either.

## Main results

* `Expr.eval_choice`: a choice evaluates its condition, and then its body or its branch.
* `Engine.build_choice`: the same of what a choice is built into.
* `Engine.chain_as_nested`: chains of conditions are nested choices, and both evaluate their
  conditions in order.
-/

namespace Stencil

/-- What is split off without a name are the arguments without a name, in order. -/
theorem Split.positional_foldl (args : List Expr) (split : Split Expr) :
    (args.foldl (Split.push Expr.named?) split).positional =
      split.positional ++ args.filter fun arg => arg.named?.isNone := by
  induction args generalizing split with
  | nil => simp
  | cons arg args ih =>
    rw [List.foldl_cons, ih, Split.push]
    cases harg : arg.named? with
    | none => simp [harg]
    | some entry => simp [harg]

/-- The positional arguments are those without names. -/
theorem positional_splitArgs_eq (args : List Expr) :
    (splitArgs args).positional = args.filter fun arg => arg.named?.isNone :=
  Split.positional_foldl args {}

/-- Evaluates conditions in order, each once, up to the first one that is truthy, and then the body
of this one and no other. Without one it evaluates what is left. -/
def firstTruthy (otherwise : Lazy) : List (Lazy × Lazy) → Lazy
  | [] => otherwise
  | (condition, body) :: clauses => fun s => do
    if (← condition s).truthy then body s else firstTruthy otherwise clauses s

open Source

/-- The layer of a call of a form: the form, with the arguments that have no name. -/
theorem Expr.layer_form {operations : Operations} {operation : String} {form : Form}
    (h : Keyed.find? operation operations = some (.form form)) (mode : Mode) (args : List Expr) :
    (Expr.call operation args).layer operations mode =
      .form form (args.filter fun arg => arg.named?.isNone) := by
  rw [Expr.layer_of_find? h, Operation.layer, positional_splitArgs_eq]

/-- A branch that is a choice itself is taken apart. -/
theorem Source.conditionalBranch_cases (e : Expr) :
    (∃ args, e = .call "if" args ∧ conditionalBranch "if" (some e) = args) ∨
      conditionalBranch "if" (some e) = [e] := by
  cases e with
  | call operation args =>
    by_cases h : operation = "if"
    · exact .inl ⟨args, by rw [h], if_pos ⟨rfl, h⟩⟩
    · exact .inr (if_neg fun hif => h hif.2)
  | _ => exact .inr rfl

/-! ### Walking a choice -/

section Walk

variable {walk : Walk} (hif : Keyed.find? "if" walk.operations = some (.form .choose))

include hif

/-- A call of `if` is evaluated as the choice between its arguments without a name. -/
theorem Expr.eval_if (args : List Expr) : (Expr.call "if" args).eval walk =
    Form.evalChoose ((args.filter fun arg => arg.named?.isNone).map (Expr.eval walk)) := by
  rw [Expr.eval_eq_run, Expr.layer_form hif]
  rfl

/-- Whether a branch has been taken apart does not matter. -/
theorem evalChoose_conditionalBranch {branch : Option Expr}
    (hbranch : ∀ e ∈ branch, e.named? = none) :
    Form.evalChoose (((conditionalBranch "if" branch).filter fun arg => arg.named?.isNone).map
        (Expr.eval walk)) = branch.elim (fun _ => pure .null) (Expr.eval walk) := by
  cases branch with
  | none => rfl
  | some e =>
    rcases conditionalBranch_cases e with ⟨args, rfl, hargs⟩ | hsingle
    · rw [hargs, ← Expr.eval_if hif]
      rfl
    · rw [hsingle, List.filter_cons_of_pos (by simp [hbranch e rfl])]
      rfl

/-- A choice evaluates its condition, and then its body or its branch. -/
theorem Expr.eval_choice {condition body : Expr} {branch : Option Expr}
    (hcondition : condition.named? = none) (hbody : body.named? = none)
    (hbranch : ∀ e ∈ branch, e.named? = none) :
    (Expr.call "if" (condition :: body :: conditionalBranch "if" branch)).eval walk =
      firstTruthy (branch.elim (fun _ => pure .null) (Expr.eval walk))
        [(condition.eval walk, body.eval walk)] := by
  rw [Expr.eval_if hif, List.filter_cons_of_pos (by simp [hcondition]),
    List.filter_cons_of_pos (by simp [hbody]), List.map_cons, List.map_cons,
    ← evalChoose_conditionalBranch hif hbranch]
  rfl

end Walk

/-! ### Building a choice -/

/-- Of fragments that may be tried together without awaiting each one may be. -/
theorem Shape.max_ne_async {a b : Shape} (h : a.max b ≠ .async) : a ≠ .async ∧ b ≠ .async := by
  revert h
  cases a <;> cases b <;> decide

/-- Fragments are built one after the other. -/
theorem buildAll_cons {part : EvalM Fragment} {parts : List (EvalM Fragment)} {f : Fragment}
    {fs : List Fragment} {E E₁ E₂ : Effects} (hpart : part E = some (.ok f, E₁))
    (hparts : buildAll parts E₁ = some (.ok fs, E₂)) :
    buildAll (part :: parts) E = some (.ok (f :: fs), E₂) := by
  simp only [buildAll, EvalM.bind_apply, hpart, hparts]
  rfl

namespace Engine

variable {engine : Engine} (hfold : engine.settings.fold = false)

include hfold

/-- Without folding a build has no effects. -/
theorem build_effects {depth : Nat} {e : Expr} {f : Fragment} {E E' : Effects}
    (h : engine.build depth e E = some (.ok f, E')) : E' = E := by
  have hkeeps : FoldKeeps engine fun _ F => F = E := by
    rintro depth e _ E' r rfl htry
    rw [tryFold_of_fold hfold] at htry
    cases htry
    rfl
  exact (build_assembled hkeeps depth e rfl h).2

/-- Without folding a call of a form is built from its positional arguments. -/
theorem build_form {operation : String} {form : Form}
    (hop : Keyed.find? operation engine.operations = some (.form form)) (depth : Nat)
    (args : List Expr) :
    engine.build depth (.call operation args) = do
      let parts ← buildAll ((args.filter fun arg => arg.named?.isNone).map (engine.build depth))
      return engine.markAwaiting operation args (.form form parts) := by
  have hget : engine.operations.get operation = .ok (.form form) := Operations.get_eq_ok.mpr hop
  rw [build_call_of_fold hfold depth hget]
  simp only [Operation.build, Operand.positional_map (f := engine.build depth) (fun _ _ => rfl),
    positional_splitArgs_eq, bind_assoc, pure_bind]

omit hfold

/-- A fragment may be run where nothing is awaited exactly if that has not been noted of it. -/
theorem checkFragment_markAwaiting {mode : Mode} {operation : String} {args : List Expr}
    {f : Fragment} : checkFragment mode (engine.markAwaiting operation args f) = .ok () ↔
      (mode = .sync → f.shape ≠ .async) := by
  rw [checkFragment_eq_ok]
  unfold markAwaiting
  split
  · next h => simp [Fragment.shape, h]
  · rfl

/-- The note of what a fragment has to be awaited for does not matter where it may be run. -/
theorem evalFragment_markAwaiting {mode : Mode} {operation : String} {args : List Expr}
    {f : Fragment} (h : mode = .sync → f.shape ≠ .async) (depth : Nat) :
    engine.evalFragment depth mode (engine.markAwaiting operation args f) =
      engine.evalFragment depth mode f := by
  unfold markAwaiting
  split
  · next hshape =>
    cases mode with
    | sync => exact absurd hshape (h rfl)
    | awaited => rfl
  · rfl

/-- A fragment of a form is evaluated by evaluating the form on its parts. -/
theorem evalFragment_form (depth : Nat) (mode : Mode) (form : Form) (parts : List Fragment) :
    engine.evalFragment depth mode (.form form parts) =
      form.eval (parts.map (engine.evalFragment depth mode)) := by
  unfold evalFragment
  rw [Fragment.eval_eq_run]
  rfl

include hfold

variable (hif : Keyed.find? "if" engine.operations = some (.form .choose))

include hif

/-- Whether a branch has been taken apart does not matter for what is built from it. -/
theorem build_conditionalBranch {branch : Option Expr} (hbranch : ∀ e ∈ branch, e.named? = none)
    {depth : Nat} {parts : List Fragment} {E E' : Effects}
    (h : buildAll (((conditionalBranch "if" branch).filter fun arg => arg.named?.isNone).map
      (engine.build depth)) E = some (.ok parts, E')) :
    ∃ branch', Option.Rel (fun e g => engine.build depth e E = some (.ok g, E)) branch branch' ∧
      ∀ mode, (mode = .sync → Fragment.shapeAll parts ≠ .async) →
        (∀ g ∈ branch', checkFragment mode g = .ok ()) ∧ ∀ depth,
          Form.evalChoose (parts.map (engine.evalFragment depth mode)) =
            branch'.elim (fun _ => pure .null) (engine.evalFragment depth mode) := by
  cases branch with
  | none =>
    cases h
    exact ⟨none, .none, fun _ _ => ⟨nofun, fun _ => rfl⟩⟩
  | some e =>
    rcases conditionalBranch_cases e with ⟨args, rfl, hargs⟩ | hsingle
    · rw [hargs] at h
      have hbuild : engine.build depth (.call "if" args) E =
          some (.ok (engine.markAwaiting "if" args (.form .choose parts)), E') := by
        rw [build_form hfold hif, EvalM.bind_apply, h]
        rfl
      obtain rfl := build_effects hfold hbuild
      refine ⟨some _, .some hbuild, fun mode hshape => ⟨?_, fun depth => ?_⟩⟩
      · rintro _ ⟨⟩
        exact checkFragment_markAwaiting.mpr hshape
      · rw [Option.elim_some, evalFragment_markAwaiting hshape, evalFragment_form]
        rfl
    · rw [hsingle, List.filter_cons_of_pos (by simp [hbranch e rfl])] at h
      obtain ⟨g, E₁, hg, h⟩ := EvalM.bind_eq_ok h
      cases h
      obtain rfl := build_effects hfold hg
      refine ⟨some g, .some hg, fun mode hshape => ⟨?_, fun depth => rfl⟩⟩
      rintro _ ⟨⟩
      exact checkFragment_eq_ok.mpr fun hmode => (Shape.max_ne_async (hshape hmode)).1

/-- A choice is built from its condition, its body and its branch. -/
theorem build_choice {condition body : Expr} {branch : Option Expr}
    (hcondition : condition.named? = none) (hbody : body.named? = none)
    (hbranch : ∀ e ∈ branch, e.named? = none) {depth : Nat} {f : Fragment} {E E' : Effects}
    (h : engine.build depth (.call "if" (condition :: body :: conditionalBranch "if" branch)) E =
      some (.ok f, E')) :
    ∃ condition' body' branch', engine.build depth condition E = some (.ok condition', E) ∧
      engine.build depth body E = some (.ok body', E) ∧
      Option.Rel (fun e g => engine.build depth e E = some (.ok g, E)) branch branch' ∧
      ∀ mode, checkFragment mode f = .ok () → (∀ g ∈ branch', checkFragment mode g = .ok ()) ∧
        ∀ depth, engine.evalFragment depth mode f =
          firstTruthy (branch'.elim (fun _ => pure .null) (engine.evalFragment depth mode))
            [(engine.evalFragment depth mode condition',
              engine.evalFragment depth mode body')] := by
  rw [build_form hfold hif, List.filter_cons_of_pos (by simp [hcondition]),
    List.filter_cons_of_pos (by simp [hbody])] at h
  obtain ⟨parts, E₁, hparts, h⟩ := EvalM.bind_eq_ok h
  cases h
  obtain ⟨condition', E₂, hcondition', hparts⟩ := EvalM.bind_eq_ok hparts
  obtain ⟨others, E₃, hothers, hparts⟩ := EvalM.bind_eq_ok hparts
  cases hparts
  obtain ⟨body', E₄, hbody', hothers⟩ := EvalM.bind_eq_ok hothers
  obtain ⟨rest, E₅, hrest, hothers⟩ := EvalM.bind_eq_ok hothers
  cases hothers
  obtain rfl := build_effects hfold hcondition'
  obtain rfl := build_effects hfold hbody'
  obtain ⟨branch', hbranch', hruns⟩ := build_conditionalBranch hfold hif hbranch hrest
  refine ⟨condition', body', branch', hcondition', hbody', hbranch', fun mode hcheck => ?_⟩
  have hshape := checkFragment_markAwaiting.mp hcheck
  obtain ⟨hchecks, hchoose⟩ := hruns mode fun hmode =>
    (Shape.max_ne_async (Shape.max_ne_async (hshape hmode)).2).2
  refine ⟨hchecks, fun depth => ?_⟩
  rw [evalFragment_markAwaiting hshape, evalFragment_form, List.map_cons, List.map_cons, ← hchoose]
  rfl

/-- A branch that can be built can be built when it has been taken apart. -/
theorem exists_buildAll_conditionalBranch {branch : Option Expr}
    (hnames : ∀ e ∈ branch, e.named? = none) {depth : Nat} {E : Effects}
    (hbranch : ∀ e ∈ branch, ∃ g, engine.build depth e E = some (.ok g, E)) :
    ∃ parts, buildAll (((conditionalBranch "if" branch).filter fun arg => arg.named?.isNone).map
      (engine.build depth)) E = some (.ok parts, E) := by
  cases branch with
  | none => exact ⟨[], rfl⟩
  | some e =>
    obtain ⟨g, hg⟩ := hbranch e rfl
    rcases conditionalBranch_cases e with ⟨args, rfl, hargs⟩ | hsingle
    · rw [build_form hfold hif] at hg
      obtain ⟨parts, E₁, hparts, hg⟩ := EvalM.bind_eq_ok hg
      cases hg
      exact ⟨parts, by rw [hargs, hparts]⟩
    · refine ⟨[g], ?_⟩
      rw [hsingle, List.filter_cons_of_pos (by simp [hnames e rfl]), List.map_cons]
      exact buildAll_cons hg rfl

/-- A choice can be built when its condition, its body and its branch can. -/
theorem exists_build_choice {condition body : Expr} {branch : Option Expr}
    (hcondition : condition.named? = none) (hbody : body.named? = none)
    (hnames : ∀ e ∈ branch, e.named? = none) {depth : Nat} {condition' body' : Fragment}
    {E : Effects} (hcondition' : engine.build depth condition E = some (.ok condition', E))
    (hbody' : engine.build depth body E = some (.ok body', E))
    (hbranch : ∀ e ∈ branch, ∃ g, engine.build depth e E = some (.ok g, E)) :
    ∃ f, engine.build depth (.call "if" (condition :: body :: conditionalBranch "if" branch)) E =
      some (.ok f, E) := by
  obtain ⟨parts, hparts⟩ := exists_buildAll_conditionalBranch hfold hif hnames hbranch
  refine ⟨engine.markAwaiting "if" (condition :: body :: conditionalBranch "if" branch)
    (.form .choose (condition' :: body' :: parts)), ?_⟩
  rw [build_form hfold hif, List.filter_cons_of_pos (by simp [hcondition]),
    List.filter_cons_of_pos (by simp [hbody]), EvalM.bind_apply, List.map_cons, List.map_cons,
    buildAll_cons hcondition' (buildAll_cons hbody' hparts)]
  rfl

end Engine

/-! ### Chains of conditions -/

namespace Source

/-- The expression of a body is no named argument. -/
theorem named?_concat {parts : List Expr} (h : ∀ part ∈ parts, part.named? = none) :
    (concat parts).named? = none := by
  have hmerged := named?_foldr_addPart h
  unfold concat
  split
  · rfl
  · next part heq => exact hmerged part (heq ▸ List.mem_singleton_self part)
  · rfl

variable {options : Options} {isOperation : String → Bool}

/-- A passage is no named argument. -/
theorem Passage.Reads.named?_eq {p : Passage} (h : p.Reads options isOperation) :
    p.expr.named? = none := by
  obtain ⟨signs, nodes, -, hexpr, -⟩ := h.exists_signs
  rw [← hexpr]
  exact named?_concat (named?_nodeExprs _ nodes)

/-- The expression of a branch is no named argument. -/
theorem named?_branchExpr {naming : Naming} {otherwise : Option Passage}
    (h : ∀ p ∈ otherwise, p.Reads options isOperation) (clauses : List Clause) :
    ∀ e ∈ branchExpr naming otherwise clauses, e.named? = none := by
  cases clauses with
  | nil =>
    cases otherwise with
    | none => exact nofun
    | some p =>
      rintro _ ⟨⟩
      exact (h p rfl).named?_eq
  | cons c clauses =>
    rintro _ ⟨⟩
    rfl

end Source

section Chains

variable {options : Options} {isOperation : String → Bool} {otherwise : Option Passage}

/-- A chain evaluates its conditions in order. -/
theorem Expr.eval_chain {walk : Walk}
    (hif : Keyed.find? "if" walk.operations = some (.form .choose)) {naming : Naming} {c : Clause}
    {clauses : List Clause}
    (hclauses : ∀ d ∈ c :: clauses, d.Reads options isOperation)
    (hotherwise : ∀ p ∈ otherwise, p.Reads options isOperation) :
    (c.choice naming (branchExpr naming otherwise clauses)).eval walk =
      firstTruthy (otherwise.elim (fun _ => pure .null) fun p => p.expr.eval walk)
        ((c :: clauses).map fun d =>
          ((termExpr naming d.term).eval walk, d.body.expr.eval walk)) := by
  induction clauses generalizing c with
  | nil =>
    obtain ⟨hc, -⟩ := List.forall_mem_cons.mp hclauses
    rw [Clause.choice, Expr.eval_choice hif (named?_termExpr naming c.term) hc.body.named?_eq
      (named?_branchExpr hotherwise [])]
    cases otherwise <;> rfl
  | cons d clauses ih =>
    obtain ⟨hc, hclauses⟩ := List.forall_mem_cons.mp hclauses
    rw [Clause.choice, Expr.eval_choice hif (named?_termExpr naming c.term) hc.body.named?_eq
      (named?_branchExpr hotherwise (d :: clauses)), branchExpr, Option.elim_some, ih hclauses]
    rfl

namespace Engine

variable {engine : Engine}

/-- What the conditions and the bodies of clauses have been built into. -/
def BuildsClauses (engine : Engine) (naming : Naming) (depth : Nat) (E : Effects) :
    List Clause → List (Fragment × Fragment) → Prop :=
  List.Forall₂ fun c built =>
    engine.build depth (termExpr naming c.term) E = some (.ok built.1, E) ∧
      engine.build depth c.body.expr E = some (.ok built.2, E)

/-- What the passage for the case that no condition is met has been built into. -/
def BuildsOtherwise (engine : Engine) (depth : Nat) (E : Effects) :
    Option Passage → Option Fragment → Prop :=
  Option.Rel fun p g => engine.build depth p.expr E = some (.ok g, E)

/-- A chain can be built when its conditions and bodies can. -/
theorem exists_build_chain (hfold : engine.settings.fold = false)
    (hif : Keyed.find? "if" engine.operations = some (.form .choose)) {naming : Naming}
    {c : Clause} {clauses : List Clause}
    (hclauses : ∀ d ∈ c :: clauses, d.Reads options isOperation)
    (hotherwise : ∀ p ∈ otherwise, p.Reads options isOperation) {depth : Nat} {E : Effects}
    {built : List (Fragment × Fragment)} {left : Option Fragment}
    (hbuilt : engine.BuildsClauses naming depth E (c :: clauses) built)
    (hleft : engine.BuildsOtherwise depth E otherwise left) :
    ∃ f, engine.build depth (c.choice naming (branchExpr naming otherwise clauses)) E =
      some (.ok f, E) := by
  induction clauses generalizing c built with
  | nil =>
    obtain ⟨hc, -⟩ := List.forall_mem_cons.mp hclauses
    obtain _ | ⟨⟨hcondition, hbody⟩, -⟩ := hbuilt
    refine exists_build_choice hfold hif (named?_termExpr naming c.term) hc.body.named?_eq
      (named?_branchExpr hotherwise []) hcondition hbody ?_
    cases hleft with
    | none => exact nofun
    | some hg =>
      rintro _ ⟨⟩
      exact ⟨_, hg⟩
  | cons d clauses ih =>
    obtain ⟨hc, hclauses⟩ := List.forall_mem_cons.mp hclauses
    obtain _ | ⟨⟨hcondition, hbody⟩, hbuilt⟩ := hbuilt
    refine exists_build_choice hfold hif (named?_termExpr naming c.term) hc.body.named?_eq
      (named?_branchExpr hotherwise (d :: clauses)) hcondition hbody ?_
    rintro _ ⟨⟩
    exact ih hclauses hbuilt

/-- A chain that has been built evaluates what its conditions have been built into in order. -/
theorem build_chain (hfold : engine.settings.fold = false)
    (hif : Keyed.find? "if" engine.operations = some (.form .choose)) {naming : Naming}
    {c : Clause} {clauses : List Clause}
    (hclauses : ∀ d ∈ c :: clauses, d.Reads options isOperation)
    (hotherwise : ∀ p ∈ otherwise, p.Reads options isOperation) {depth : Nat} {f : Fragment}
    {E E' : Effects}
    (h : engine.build depth (c.choice naming (branchExpr naming otherwise clauses)) E =
      some (.ok f, E')) :
    ∃ built left, engine.BuildsClauses naming depth E (c :: clauses) built ∧
      engine.BuildsOtherwise depth E otherwise left ∧
      ∀ mode, checkFragment mode f = .ok () → ∀ depth, engine.evalFragment depth mode f =
        firstTruthy (left.elim (fun _ => pure .null) (engine.evalFragment depth mode))
          (built.map fun b =>
            (engine.evalFragment depth mode b.1, engine.evalFragment depth mode b.2)) := by
  induction clauses generalizing c f E' with
  | nil =>
    obtain ⟨hc, -⟩ := List.forall_mem_cons.mp hclauses
    obtain ⟨condition, body, left, hcondition, hbody, hleft, hruns⟩ :=
      build_choice hfold hif (named?_termExpr naming c.term) hc.body.named?_eq
        (named?_branchExpr hotherwise []) h
    refine ⟨[(condition, body)], left, .cons ⟨hcondition, hbody⟩ .nil, ?_,
      fun mode hcheck depth => (hruns mode hcheck).2 depth⟩
    cases otherwise with
    | none =>
      cases hleft
      exact .none
    | some p =>
      cases hleft with
      | some hg => exact .some hg
  | cons d clauses ih =>
    obtain ⟨hc, hclauses⟩ := List.forall_mem_cons.mp hclauses
    obtain ⟨condition, body, left, hcondition, hbody, hleft, hruns⟩ :=
      build_choice hfold hif (named?_termExpr naming c.term) hc.body.named?_eq
        (named?_branchExpr hotherwise (d :: clauses)) h
    cases hleft with
    | some hg =>
      obtain ⟨built, last, hbuilt, hlast, hrest⟩ := ih hclauses hg
      refine ⟨(condition, body) :: built, last, .cons ⟨hcondition, hbody⟩ hbuilt, hlast,
        fun mode hcheck depth => ?_⟩
      obtain ⟨hchecks, heval⟩ := hruns mode hcheck
      rw [heval depth, Option.elim_some, hrest mode (hchecks _ rfl) depth]
      rfl

/-- Conditions that are chained in else tags, and the same conditions nested in else branches, are
read as one and the same expression. It evaluates the conditions in order, each once, up to the
first one that is truthy, and ends with the body of this one and no other, or with what is left, or
`null`; where a condition fails, or the body that is chosen, it ends there. So it does when it is
walked, and when it is built without folding, which takes no more than that its conditions and
bodies can be built: it then evaluates what these are built into on their own. This holds in both
modes, but for fragments that are refused without awaiting. -/
theorem chain_as_nested {first : Clause} {clauses : List Clause}
    (hclauses : ∀ c ∈ first :: clauses, c.Reads options isOperation)
    (hotherwise : ∀ p ∈ otherwise, p.Reads options isOperation) :
    ∃ e, Source.read (chainText first clauses otherwise) options isOperation = .ok e ∧
      Source.read (nestedText first clauses otherwise) options isOperation = .ok e ∧
      ∀ engine : Engine, Keyed.find? "if" engine.operations = some (.form .choose) →
        (∀ depth mode, engine.evalExpr depth mode e =
          firstTruthy
            (otherwise.elim (fun _ => pure .null) fun p => engine.evalExpr depth mode p.expr)
            ((first :: clauses).map fun c =>
              (engine.evalExpr depth mode (termExpr { options, isOperation } c.term),
                engine.evalExpr depth mode c.body.expr))) ∧
        (engine.settings.fold = false → ∀ depth E,
          (∀ built left,
            engine.BuildsClauses { options, isOperation } depth E (first :: clauses) built →
            engine.BuildsOtherwise depth E otherwise left →
              ∃ f, engine.build depth e E = some (.ok f, E)) ∧
          ∀ f E', engine.build depth e E = some (.ok f, E') → ∃ built left,
            engine.BuildsClauses { options, isOperation } depth E (first :: clauses) built ∧
            engine.BuildsOtherwise depth E otherwise left ∧
            ∀ mode, checkFragment mode f = .ok () → ∀ depth, engine.evalFragment depth mode f =
              firstTruthy (left.elim (fun _ => pure .null) (engine.evalFragment depth mode))
                (built.map fun b =>
                  (engine.evalFragment depth mode b.1, engine.evalFragment depth mode b.2))) := by
  obtain ⟨hfirst, hrest⟩ := List.forall_mem_cons.mp hclauses
  obtain ⟨hchain, hnested⟩ := concludes_tails hrest hotherwise
  refine ⟨_, read_choice hfirst hchain, read_choice hfirst hnested, fun engine hif =>
    ⟨fun depth mode => ?_, fun hfold depth E =>
      ⟨fun built left => exists_build_chain hfold hif hclauses hotherwise,
        fun f E' => build_chain hfold hif hclauses hotherwise⟩⟩⟩
  unfold evalExpr
  exact Expr.eval_chain hif hclauses hotherwise

/-- A chain of two conditions and a passage for neither of them, and the same choices nested. -/
theorem chain_as_nested_letters :
    let a : Clause := ⟨"a", .path "a", ⟨"1", .text "1"⟩⟩
    let b : Clause := ⟨"b", .path "b", ⟨"2", .text "2"⟩⟩
    let c : Passage := ⟨"3", .text "3"⟩
    let chained := "\x7b\x7b#if a\x7d\x7d1\x7b\x7belse if b\x7d\x7d2" ++
      "\x7b\x7belse\x7d\x7d3\x7b\x7b/if\x7d\x7d"
    let nested := "\x7b\x7b#if a\x7d\x7d1\x7b\x7belse\x7d\x7d\x7b\x7b#if b\x7d\x7d2" ++
      "\x7b\x7belse\x7d\x7d3\x7b\x7b/if\x7d\x7d\x7b\x7b/if\x7d\x7d"
    let naming : Naming := { options := {}, isOperation := fun _ => false }
    let engine : Engine := { settings := { fold := false } }
    (∀ d ∈ [a, b], d.Reads {} fun _ => false) ∧ (∀ p ∈ some c, p.Reads {} fun _ => false) ∧
      Keyed.find? "if" engine.operations = some (.form .choose) ∧
      ∃ e, Source.read chained {} (fun _ => false) = .ok e ∧
        Source.read nested {} (fun _ => false) = .ok e ∧
        (∀ depth mode, engine.evalExpr depth mode e =
          firstTruthy (engine.evalExpr depth mode (.text "3"))
            ([(.path ⟨["a"]⟩, .text "1"), (.path ⟨["b"]⟩, .text "2")].map fun (condition, body) =>
              (engine.evalExpr depth mode condition, engine.evalExpr depth mode body))) ∧
        ∃ f, engine.build 0 e {} = some (.ok f, {}) ∧ ∃ built left,
          engine.BuildsClauses naming 0 {} [a, b] built ∧
          engine.BuildsOtherwise 0 {} (some c) left ∧
          ∀ depth, engine.evalFragment depth .awaited f =
            firstTruthy (left.elim (fun _ => pure .null) (engine.evalFragment depth .awaited))
              (built.map fun (condition, body) =>
                (engine.evalFragment depth .awaited condition,
                  engine.evalFragment depth .awaited body)) := by
  intro a b c chained nested naming engine
  have hdigit : ∀ d ∈ ["1", "2", "3"],
      Passage.Reads {} (fun _ => false) ⟨d, .text d⟩ := by
    intro d hd
    simp only [List.mem_cons, List.not_mem_nil, or_false] at hd
    rcases hd with rfl | rfl | rfl <;>
      exact Passage.reads_run (by decide) (by decide) rfl (by decide) (by decide) (by decide)
  have ha : Condition "a" (.path "a") :=
    .of_bareName ⟨by decide, rfl, rfl, rfl, by decide, by decide, by decide⟩
  have hb : Condition "b" (.path "b") :=
    .of_bareName ⟨by decide, rfl, rfl, rfl, by decide, by decide, by decide⟩
  have hclauses : ∀ d ∈ [a, b], d.Reads {} fun _ => false := by
    intro d hd
    simp only [List.mem_cons, List.not_mem_nil, or_false] at hd
    rcases hd with rfl | rfl
    · exact ⟨ha, hdigit "1" (by decide)⟩
    · exact ⟨hb, hdigit "2" (by decide)⟩
  have hotherwise : ∀ p ∈ some c, p.Reads {} fun _ => false := by
    rintro _ ⟨⟩
    exact hdigit "3" (by decide)
  have hif : Keyed.find? "if" engine.operations = some (.form .choose) := rfl
  have hbuilt : engine.BuildsClauses naming 0 {} [a, b]
      [(.path ⟨["a"]⟩, .const (.string "1")), (.path ⟨["b"]⟩, .const (.string "2"))] :=
    .cons ⟨rfl, rfl⟩ (.cons ⟨rfl, rfl⟩ .nil)
  have hleft : engine.BuildsOtherwise 0 {} (some c) (some (.const (.string "3"))) := .some rfl
  obtain ⟨e, hchain, hnested, hruns⟩ := chain_as_nested hclauses hotherwise
  obtain ⟨hwalk, hbuilds⟩ := hruns engine hif
  obtain ⟨hexists, hassembled⟩ := hbuilds rfl 0 {}
  obtain ⟨f, hf⟩ := hexists _ _ hbuilt hleft
  obtain ⟨built, left, hbuilt, hleft, heval⟩ := hassembled f {} hf
  exact ⟨hclauses, hotherwise, hif, e, hchain, hnested, hwalk, f, hf, built, left, hbuilt, hleft,
    heval .awaited (checkFragment_eq_ok.mpr nofun)⟩

end Engine

end Chains

end Stencil
