import Stencil.Proofs.Likeness
import Stencil.Proofs.Names
import Stencil.Proofs.Rejections

/-!
# Data before operations

A name that is an operation, too, is read as a choice: the field of the context, or else a call of
the operation without arguments. Where the context has the field, the call is never evaluated, so a
walk does not care what it would lead to. A build does: it takes the arguments of every call apart,
and refuses the template when the operation cannot do without any, as loops, blocks, upward reads,
and calls and definitions of templates cannot. So there are names of fields that a walk shows and
that no compiled template may hold.

## Main results

* `Engine.build_bare`, `Engine.build_bare_refused`: what a build makes of a call without arguments.
* `Code.eval_name`: what the read of a name leads to at the root.
* `Engine.data_before_operation`: a name shows the field of the context in every strategy, unless
  the template is compiled and the operation is refused without arguments.
* `Engine.data_before_operation_fails`: a field that is shown by a walk and in no compiled template.
-/

namespace Stencil

/-- What a call of the operation without arguments is refused for, if it is. -/
def Operation.bareRefusal? (operations : Operations) (op : Operation) : Option Error :=
  match op.layer operations .awaited [] with
  | .refused err => some err
  | _ => none

/-- A method can be called without arguments as far as a build knows. -/
theorem Operation.bareRefusal?_method {operations : Operations} (m : Method) :
    (Operation.method m).bareRefusal? operations = none := by
  simp [bareRefusal?, layer]

variable {engine : Engine} {op : Operation} {name : String}

/-! ### Calls without arguments -/

/-- A call without arguments that is refused is not built. -/
theorem Operation.build_bare_refused {operations : Operations} {err : Error}
    (h : op.bareRefusal? operations = some err) : op.build operations [] = throw err := by
  cases op with
  | loop | context | template | define | lookup =>
    cases h
    rfl
  | form | position => cases h
  | method m =>
    rw [bareRefusal?_method] at h
    cases h

/-- A call without arguments that is not refused is built into a fragment that is never awaited. -/
theorem Operation.build_bare {operations : Operations} (hsync : op.supportsSync = true)
    (h : op.bareRefusal? operations = none) :
    ∃ f : Fragment, op.build operations [] = pure f ∧ f.shape = .sync := by
  cases op with
  | loop | context | template | define | lookup => cases h
  | form f => exact ⟨.form f [], rfl, rfl⟩
  | position read => exact ⟨.position read, rfl, rfl⟩
  | method m =>
    have hm : m.isAsync = false := by simpa [supportsSync] using hsync
    exact ⟨.method m [], rfl, by simp [Fragment.shape, hm, Fragment.shapeArgs]⟩

/-- A call that is refused is not known to be deterministic. -/
theorem Operation.determinacy_bare_refused {operations : Operations} {registry : Registry}
    {err : Error} (h : op.bareRefusal? operations = some err) (known : Bool) :
    op.determinacy registry [] known = false := by
  cases op with
  | loop | context | template | define | lookup => rfl
  | form | position => cases h
  | method m =>
    rw [bareRefusal?_method] at h
    cases h

/-- A method always answers. -/
theorem Method.exists_call (m : Method) (args : Arguments) (E : Effects) :
    ∃ r E', m.call args E = some (r, E') := by
  unfold Method.call
  simp only [EvalM.bind_apply, EvalM.logLines, EvalM.ofExcept]
  cases (m.run args).outcome with
  | error err => exact ⟨_, _, rfl⟩
  | ok v => exact ⟨_, _, rfl⟩

namespace Engine

/-- A call without arguments that is not refused has an outcome when it is tried without
awaiting. -/
theorem exists_eval_bare (depth : Nat) (hop : Keyed.find? name engine.operations = some op)
    (hsync : op.supportsSync = true) (h : op.bareRefusal? engine.operations = none) (s : Scope)
    (E : Effects) : ∃ r E', engine.evalExpr depth .sync (.call name []) s E = some (r, E') := by
  have hget : engine.operations.get name = .ok op := Operations.get_eq_ok.mpr hop
  have hlayer : (Expr.call name []).layer engine.operations .sync =
      op.layer engine.operations .sync [] := Expr.layer_call hget
  rw [evalExpr, Expr.eval_eq_run]
  show ∃ r E', Layer.run _ _ ((Expr.call name []).layer engine.operations .sync) s E = some (r, E')
  rw [hlayer]
  cases op with
  | loop | context | template | define | lookup => cases h
  | form f => cases f <;> exact ⟨_, _, rfl⟩
  | position read => exact ⟨_, _, rfl⟩
  | method m =>
    have hm : m.isAsync = false := by simpa [Operation.supportsSync] using hsync
    rw [Operation.layer, if_neg (by simp [hm])]
    exact m.exists_call {} E

/-- An expression that has an outcome is folded or left to run time. -/
theorem exists_tryFold {depth : Nat} {e : Expr} {E : Effects}
    (h : ∃ r E', engine.evalExpr depth .sync e (Scope.root .null) (foldEffects E) = some (r, E')) :
    ∃ v E', engine.tryFold depth e E = some (.ok v, E') := by
  unfold tryFold
  simp only [EvalM.bind_apply, EvalM.templates]
  split
  · obtain ⟨r, after, heval⟩ := h
    unfold foldEffects at heval
    simp only [EvalM.attempt, EvalM.keeping, heval, Option.map_some]
    cases r <;> exact ⟨_, _, rfl⟩
  · exact ⟨none, E, rfl⟩

/-- An expression that hangs on its scope is left to run time. -/
theorem tryFold_eq_none {e : Expr}
    (h : ∀ registry, e.isDeterministic engine.operations registry = false) (depth : Nat)
    (E : Effects) : engine.tryFold depth e E = some (.ok none, E) := by
  unfold tryFold
  simp only [EvalM.bind_apply, EvalM.templates, h, Bool.and_false, Bool.false_and,
    Bool.false_eq_true, if_false]
  rfl

/-- A call without arguments that is not refused is built into a fragment that is never awaited. -/
theorem build_bare (depth : Nat) (hop : Keyed.find? name engine.operations = some op)
    (hsync : op.supportsSync = true) (h : op.bareRefusal? engine.operations = none) (E : Effects) :
    ∃ f E', engine.build depth (.call name []) E = some (.ok f, E') ∧ f.shape = .sync := by
  have hget : engine.operations.get name = .ok op := Operations.get_eq_ok.mpr hop
  obtain ⟨v, E₁, hfold⟩ := exists_tryFold (exists_eval_bare depth hop hsync h _ _)
  rw [build_call engine depth hget, EvalM.bind_apply, hfold]
  cases v with
  | some v => exact ⟨.const v, E₁, rfl, rfl⟩
  | none =>
    obtain ⟨f, hbuild, hshape⟩ := op.build_bare hsync h
    have hf : engine.markAwaiting name [] f = f := by
      rw [markAwaiting, if_neg (by simp [hshape])]
    refine ⟨f, E₁, ?_, hshape⟩
    show (op.build engine.operations [] >>= fun f => pure (engine.markAwaiting name [] f)) E₁ = _
    rw [hbuild, pure_bind, hf]
    rfl

/-- A call without arguments that is refused is not built. -/
theorem build_bare_refused (depth : Nat) {err : Error}
    (hop : Keyed.find? name engine.operations = some op)
    (h : op.bareRefusal? engine.operations = some err) (E : Effects) :
    engine.build depth (.call name []) E = some (.error err, E) := by
  have hget : engine.operations.get name = .ok op := Operations.get_eq_ok.mpr hop
  have hfold := engine.tryFold_eq_none (e := .call name []) (fun registry => by
    simp [Expr.isDeterministic, Expr.determinacy, hop, Operand.ofLists, Expr.determinacies,
      Operation.determinacy_bare_refused h]) depth E
  rw [build_call engine depth hget, EvalM.bind_apply, hfold]
  show (op.build engine.operations [] >>= fun f => pure (engine.markAwaiting name [] f)) E = _
  rw [Operation.build_bare_refused h]
  rfl

end Engine

/-! ### The read of a name -/

/-- What a read of a name is built into. -/
def nameFragment (recurse : Bool) (name : String) : Fragment :=
  if recurse then .lookup name else .path ⟨[name]⟩

/-- The layer of a read of a name. -/
def nameLayer (recurse : Bool) (name : String) : Layer Code :=
  if recurse then .lookup name else .path ⟨[name]⟩

variable {recurse : Bool}

/-- The layer of the expression of a name. -/
theorem layer_nameExpr {operations : Operations}
    (hlookup : recurse = true → Keyed.find? "rvar" operations = some .lookup) (mode : Mode) :
    (Code.walked (Source.nameExpr recurse name)).layer operations mode =
      nameLayer recurse name := by
  cases recurse with
  | false => rfl
  | true =>
    have hget : operations.get "rvar" = .ok .lookup := Operations.get_eq_ok.mpr (hlookup rfl)
    show ((Expr.call "rvar" [.text name]).layer operations mode).map Code.walked = _
    rw [Expr.layer_call hget]
    rfl

/-- The layer of the fragment of a name. -/
theorem layer_nameFragment (operations : Operations) (mode : Mode) :
    (Code.built (nameFragment recurse name)).layer operations mode = nameLayer recurse name := by
  cases recurse <;> rfl

/-- A text without points has no step up to drop. -/
theorem Scope.dropUp_of_notMem {cs : List Char} (h : '.' ∉ cs) : dropUp cs = cs := by
  fun_induction dropUp cs with
  | case1 => simp at h
  | case2 c cs _ ih => rw [ih fun hmem => h (List.mem_cons_of_mem _ hmem)]
  | case3 => rfl

/-- A text without points has no step that stays to drop. -/
theorem Scope.dropStay_of_notMem {cs : List Char} (h : '.' ∉ cs) : dropStay cs = cs := by
  fun_induction dropStay cs with
  | case1 => simp at h
  | case2 c cs _ ih => rw [ih fun hmem => h (List.mem_cons_of_mem _ hmem)]
  | case3 => rfl

/-- The path that an upward read of a name looks for is the name. -/
theorem Scope.soughtName_bareName (h : BareName name) : soughtName name = name.toList := by
  have hpoint : '.' ∉ name.toList := h.notMem_of_isSeparator rfl
  unfold soughtName
  rw [dropUp_of_notMem hpoint, dropStay_of_notMem hpoint]
  split
  · next cs hname => simp [hname] at hpoint
  · rfl

/-- An upward read of a name is a search for it. -/
theorem Scope.lookup_bareName (h : BareName name) (s : Scope) :
    s.lookup name = (s.find? name).getD .null := by
  have hname : ¬(name.toList = [] ∨ name.toList = ['t', 'h', 'i', 's'] ∨ name.toList = ['.']) := by
    rintro (hnil | hthis | hpoint)
    · exact h.ne_empty (String.toList_eq_nil_iff.mp hnil)
    · exact h.ne_this (String.toList_inj.mp hthis)
    · exact h.notMem_of_isSeparator (c := '.') rfl (by simp [hpoint])
  have hsplit : Text.splitOn (· == '.') name.toList = [name.toList] :=
    Text.splitOn_of_forall fun c hc => by
      rw [beq_eq_false_iff_ne]
      rintro rfl
      exact h.notMem_of_isSeparator rfl hc
  unfold lookup
  rw [soughtName_bareName h, if_neg hname, hsplit]
  simp only [List.map_cons, List.map_nil, String.ofList_toList]
  cases s.find? name <;> rfl

namespace Code

variable {mark : Mark} {fields : Keyed Value} {v : Value} {host : Host} {c : Code}

/-- At the root, the read of a name leads to the field of this name, which an upward read takes
only when it is truthy. -/
theorem eval_name {data : Value}
    (hlayer : c.layer host.operations host.mode = nameLayer recurse name) (hname : BareName name)
    (hfield : Keyed.find? name fields = some v) (htruthy : recurse = true → v.truthy = true)
    (hdata : data.Alike .bare (.object mark fields)) :
    ∃ w, w.Alike .bare v ∧ c.eval host (Scope.root data) = pure w := by
  cases recurse with
  | false =>
    refine ⟨data.read [name], ?_, by rw [eval_eq_run, hlayer]; rfl⟩
    have hread : (Value.object mark fields).read [name] = v := by
      simp [Value.read, hname.ne_empty, Value.get?, hfield]
    show (data.read [name]).seen .bare = v.seen .bare
    rw [← Value.read_seen, hdata, Value.read_seen, hread]
  | true =>
    refine ⟨(Scope.root data).lookup name, ?_, by rw [eval_eq_run, hlayer]; rfl⟩
    have hlookup : (Scope.root (.object mark fields)).lookup name = v := by
      simp [Scope.lookup_bareName hname, Scope.find?_root, Value.get?, hfield, Value.filterTruthy,
        htruthy rfl]
    have hroot : (Scope.root data).Alike .bare (Scope.root (.object mark fields)) :=
      congrArg Scope.root hdata
    show ((Scope.root data).lookup name).seen .bare = v.seen .bare
    rw [← Scope.lookup_seen, hroot, Scope.lookup_seen, hlookup]

/-- A choice between two parts is the first one when that leads to a value. -/
theorem eval_default {first other : Code} {s : Scope} {w : Value}
    (hlayer : c.layer host.operations host.mode = .form .default [first, other])
    (hfirst : first.eval host s = pure w) (hnull : w.isNull = false) :
    c.eval host s = pure w := by
  rw [eval_eq_run, hlayer]
  show (first.eval host s >>= fun v =>
    if v.isNull then Form.evalDefault [other.eval host] s else pure v) = _
  rw [hfirst, pure_bind, hnull]
  rfl

end Code

/-! ### The choice between a field and an operation -/

/-- The field of the context, or else a call without arguments. -/
def fieldOrCall (recurse : Bool) (name : String) : Expr :=
  .call "default" [Source.nameExpr recurse name, .call name []]

namespace Engine

variable {depth : Nat} {mark : Mark} {fields : Keyed Value} {v : Value}

/-- A template whose code is a choice between the read of a name and something else shows the field
of this name. -/
theorem render_field {T : Template} {first other : Code}
    (hlayer : T.body.code.layer engine.operations (T.body.mode T.mode) =
      .form .default [first, other])
    (hfirst : first.layer engine.operations (T.body.mode T.mode) = nameLayer recurse name)
    (hname : BareName name) (hfield : Keyed.find? name fields = some v) (hnull : v.isNull = false)
    (htruthy : recurse = true → v.truthy = true) (F : Effects) :
    ∃ F', T.render engine (depth + 1) (.object mark fields) F = some (.ok v.output, F') ∧
      F'.templates = F.templates ∧ F'.log = F.log := by
  rcases hmarked : Value.marked F.run (.object mark fields) F.made with ⟨data, made⟩
  have hdata : data.Alike .bare (.object mark fields) := by
    have hunmarked := Value.unmarked_marked F.run (.object mark fields) F.made
    rwa [hmarked] at hunmarked
  obtain ⟨w, hw, hread⟩ : ∃ w, w.Alike .bare v ∧
      first.eval (engine.host depth (T.body.mode T.mode)) (Scope.root data) = pure w :=
    Code.eval_name hfirst hname hfield htruthy hdata
  have hsettle : EvalM.settle (.object mark fields) F = some (.ok data, { F with made }) := by
    rw [EvalM.settle, hmarked]
  have heval : T.body.code.eval (engine.host depth (T.body.mode T.mode)) (Scope.root data) =
      pure w := Code.eval_default hlayer hread (hw.isNull.trans hnull)
  refine ⟨{ F with made }, ?_, rfl, rfl⟩
  rw [Template.render, EvalM.bind_apply, hsettle]
  show (engine.runTemplate (depth + 1) T.mode T.body (Scope.root data) >>= fun v =>
    pure v.output) { F with made } = _
  rw [runTemplate_succ, heval, pure_bind, hw.output]
  rfl

/-- The read of a name is built as it is. -/
theorem build_nameExpr
    (hlookup : recurse = true → Keyed.find? "rvar" engine.operations = some .lookup)
    (E : Effects) : engine.build depth (Source.nameExpr recurse name) E =
      some (.ok (nameFragment recurse name), E) := by
  cases recurse with
  | false => rfl
  | true =>
    have hget : engine.operations.get "rvar" = .ok .lookup := Operations.get_eq_ok.mpr (hlookup rfl)
    have hfold := engine.tryFold_eq_none (e := Source.lookupExpr name) (fun registry => by
      simp [Source.lookupExpr, Expr.isDeterministic, Expr.determinacy, hlookup rfl,
        Operation.determinacy]) depth E
    show engine.build depth (Source.lookupExpr name) E = _
    rw [Source.lookupExpr] at hfold ⊢
    rw [build_call engine depth hget, EvalM.bind_apply, hfold]
    rfl

section Strategies

variable (hdefault : Keyed.find? "default" engine.operations = some (.form .default))
    (hlookup : recurse = true → Keyed.find? "rvar" engine.operations = some .lookup)

include hdefault hlookup

/-- A choice is built from its two parts, and is never folded: its first part hangs on the
context. -/
theorem build_fieldOrCall (E : Effects) :
    engine.build depth (fieldOrCall recurse name) E =
      (engine.build depth (.call name []) >>= fun f =>
        pure (engine.markAwaiting "default" [Source.nameExpr recurse name, .call name []]
          (.form .default [nameFragment recurse name, f]))) E := by
  have hget : engine.operations.get "default" = .ok (.form .default) :=
    Operations.get_eq_ok.mpr hdefault
  have hfold := engine.tryFold_eq_none (e := fieldOrCall recurse name) (fun registry => by
    cases recurse with
    | false =>
      simp [fieldOrCall, Source.nameExpr, Expr.isDeterministic, Expr.determinacy, hdefault,
        Operand.ofLists, Expr.determinacies, Operation.determinacy]
    | true =>
      simp [fieldOrCall, Source.nameExpr, Source.lookupExpr, Expr.isDeterministic,
        Expr.determinacy, hdefault, hlookup rfl, Operand.ofLists, Expr.determinacies,
        Operation.determinacy]) depth E
  have hparts : Operand.positional (Operand.ofLists [Source.nameExpr recurse name, .call name []]
      ([Source.nameExpr recurse name, .call name []].map (engine.build depth))) =
        [engine.build depth (Source.nameExpr recurse name),
          engine.build depth (.call name [])] := by
    cases recurse <;> rfl
  rw [fieldOrCall] at hfold ⊢
  rw [build_call engine depth hget, EvalM.bind_apply, hfold]
  show ((do
      let parts ← buildAll (Operand.positional (Operand.ofLists _ _))
      pure (Fragment.form .default parts)) >>= fun f => _) E = _
  simp only [hparts, buildAll, pure_bind, bind_assoc]
  rw [EvalM.bind_apply, build_nameExpr hlookup]

variable (hop : Keyed.find? name engine.operations = some op)

include hop

/-- A walk is refused for none of the operations. -/
theorem checkWalk_fieldOrCall (hsync : op.supportsSync = true) (mode : Mode) :
    engine.checkWalk mode (fieldOrCall recurse name) = .ok () := by
  have hnone : ∀ sought : Operation → Bool, sought (.form .default) = false →
      sought .lookup = false → sought op = false →
      (fieldOrCall recurse name).firstOperation? engine.operations sought = none := by
    intro sought hform hread hsought
    refine Expr.firstOperation?_eq_none.mpr fun c hc => ?_
    cases recurse with
    | false =>
      have hcalls : (fieldOrCall false name).calls = [("default", 2), (name, 0)] := rfl
      rw [hcalls] at hc
      simp only [List.mem_cons, List.not_mem_nil, or_false] at hc
      rcases hc with rfl | rfl
      · exact ⟨_, hdefault, hform⟩
      · exact ⟨_, hop, hsought⟩
    | true =>
      have hcalls : (fieldOrCall true name).calls = [("default", 2), ("rvar", 1), (name, 0)] := rfl
      rw [hcalls] at hc
      simp only [List.mem_cons, List.not_mem_nil, or_false] at hc
      rcases hc with rfl | rfl | rfl
      · exact ⟨_, hdefault, hform⟩
      · exact ⟨_, hlookup rfl, hread⟩
      · exact ⟨_, hop, hsought⟩
  cases mode with
  | sync =>
    have hasync : (fieldOrCall recurse name).firstAsync? engine.operations = none :=
      hnone _ rfl rfl (by simp [hsync])
    rw [checkWalk, hasync]
  | awaited =>
    have hunknown : (fieldOrCall recurse name).firstUnknown? engine.operations = none :=
      hnone _ rfl rfl rfl
    rw [checkWalk, hunknown]

/-- A template that is walked shows the field. -/
theorem walked_field (hsync : op.supportsSync = true) (hname : BareName name)
    (hfield : Keyed.find? name fields = some v) (hnull : v.isNull = false)
    (htruthy : recurse = true → v.truthy = true) (mode : Mode) (E : Effects) (depth' : Nat) :
    ∃ T E', engine.buildTemplate depth ⟨false, mode⟩ (fieldOrCall recurse name) E =
        some (.ok T, E') ∧
      ∀ F, ∃ F', T.render engine (depth' + 1) (.object mark fields) F = some (.ok v.output, F') ∧
        F'.templates = F.templates ∧ F'.log = F.log := by
  refine ⟨⟨mode, engine.interpretedBody (fieldOrCall recurse name)⟩, E, ?_, fun F => ?_⟩
  · unfold buildTemplate
    simp only [Bool.false_eq_true, if_false, checkWalk_fieldOrCall hdefault hlookup hop hsync]
    rfl
  · have hget : engine.operations.get "default" = .ok (.form .default) :=
      Operations.get_eq_ok.mpr hdefault
    have hlayer : ∀ mode, (Code.walked (fieldOrCall recurse name)).layer engine.operations mode =
        .form .default [.walked (Source.nameExpr recurse name), .walked (.call name [])] := by
      intro mode
      rw [Code.layer, fieldOrCall, Expr.layer_call hget]
      cases recurse <;> rfl
    exact render_field (hlayer _) (layer_nameExpr hlookup _) hname hfield hnull htruthy F

/-- A template that is compiled shows the field when the operation is not refused without
arguments. -/
theorem built_field (hsync : op.supportsSync = true)
    (hrefusal : op.bareRefusal? engine.operations = none) (hname : BareName name)
    (hfield : Keyed.find? name fields = some v) (hnull : v.isNull = false)
    (htruthy : recurse = true → v.truthy = true) (mode : Mode) (E : Effects) (depth' : Nat) :
    ∃ T E', engine.buildTemplate depth ⟨true, mode⟩ (fieldOrCall recurse name) E =
        some (.ok T, E') ∧
      ∀ F, ∃ F', T.render engine (depth' + 1) (.object mark fields) F = some (.ok v.output, F') ∧
        F'.templates = F.templates ∧ F'.log = F.log := by
  obtain ⟨f, E', hbuild, hshape⟩ := engine.build_bare depth hop hsync hrefusal E
  let choice : Fragment := .form .default [nameFragment recurse name, f]
  have hchoice : choice.shape = .sync := by
    cases recurse <;> simp [choice, nameFragment, Fragment.shape, Fragment.shapeAll, hshape,
      Shape.max]
  have hmark : engine.markAwaiting "default" [Source.nameExpr recurse name, .call name []] choice =
      choice := by
    rw [markAwaiting, if_neg (by simp [hchoice])]
  have hbuilt : engine.build depth (fieldOrCall recurse name) E = some (.ok choice, E') := by
    rw [build_fieldOrCall hdefault hlookup, EvalM.bind_apply, hbuild]
    show (pure (engine.markAwaiting _ _ choice) : EvalM Fragment) E' = _
    rw [hmark]
    rfl
  have hcheck : checkFragment mode choice = .ok () := by
    rw [checkFragment_eq, if_neg (by simp [hchoice])]
  refine ⟨⟨mode, .compiled choice⟩, E', ?_, fun F => ?_⟩
  · unfold buildTemplate
    simp only [if_true]
    rw [EvalM.bind_apply, hbuilt]
    show (EvalM.ofExcept (checkFragment mode _) >>= fun _ => pure _) E' = _
    rw [hcheck]
    rfl
  · have hlayer : ∀ mode, (Code.built choice).layer engine.operations mode =
        .form .default [.built (nameFragment recurse name), .built f] := fun _ => rfl
    exact render_field (hlayer _) (layer_nameFragment _ _) hname hfield hnull htruthy F

/-- A template is not compiled when the operation is refused without arguments. -/
theorem built_refused {err : Error} (hrefusal : op.bareRefusal? engine.operations = some err)
    (mode : Mode) (E : Effects) :
    engine.buildTemplate depth ⟨true, mode⟩ (fieldOrCall recurse name) E =
      some (.error err, E) := by
  unfold buildTemplate
  simp only [if_true]
  rw [EvalM.bind_apply, build_fieldOrCall hdefault hlookup, EvalM.bind_apply,
    build_bare_refused depth hop hrefusal]

end Strategies

/-- A name stands alone in a template that writes it as it is. It is an operation, which need not be
awaited, and the context is a record with a field of this name that is not `null`. The template
shows the field in every strategy, whatever has been registered, and rendering it logs and registers
nothing; but a compiled template is refused when the operation is refused without arguments,
although it is never called. Where names are read through all scopes, only a truthy field is
found. -/
theorem data_before_operation (engine : Engine)
    (hdefault : Keyed.find? "default" engine.operations = some (.form .default)) {name : String}
    (hname : BareName name) {op : Operation} (hop : Keyed.find? name engine.operations = some op)
    (hsync : op.supportsSync = true) (mark : Mark) {fields : Keyed Value} {v : Value}
    (hfield : Keyed.find? name fields = some v) (hnull : v.isNull = false) (options : Options)
    (hlookup : options.recurse = true → Keyed.find? "rvar" engine.operations = some .lookup)
    (htruthy : options.recurse = true → v.truthy = true) (strategy : Strategy)
    (depth depth' : Nat) (E : Effects) :
    ∃ e, engine.read (Source.rawTag name) options = .ok e ∧
      (∀ err, strategy.compiled = true → op.bareRefusal? engine.operations = some err →
        engine.buildTemplate depth strategy e E = some (.error err, E)) ∧
      ((strategy.compiled = true → op.bareRefusal? engine.operations = none) →
        ∃ T E', engine.buildTemplate depth strategy e E = some (.ok T, E') ∧
          ∀ F, ∃ F', T.render engine (depth' + 1) (.object mark fields) F =
              some (.ok v.output, F') ∧
            F'.templates = F.templates ∧ F'.log = F.log) := by
  have hread : engine.read (Source.rawTag name) options =
      .ok (fieldOrCall options.recurse name) := by
    have hoperation : engine.hasOperation name = true := by
      rw [hasOperation, Keyed.contains, hop, Option.isSome_some]
    rw [read, Source.readFolded_rawTag hname,
      Source.pathExpr_operation hname List.not_mem_nil hoperation]
    rfl
  refine ⟨fieldOrCall options.recurse name, hread, ?_, ?_⟩
  all_goals obtain ⟨_ | _, mode⟩ := strategy
  · intro err hcompiled
    cases hcompiled
  · exact fun err _ hrefusal => built_refused hdefault hlookup hop hrefusal mode E
  · exact fun _ => walked_field hdefault hlookup hop hsync hname hfield hnull htruthy mode E depth'
  · exact fun hrefusal => built_field hdefault hlookup hop hsync (hrefusal rfl) hname hfield hnull
      htruthy mode E depth'

/-- The loop has a name that may be the name of a field. -/
theorem bareName_each : BareName "each" :=
  ⟨by decide, rfl, rfl, rfl, by decide, by decide, by decide⟩

/-- One field is named like the method that escapes texts and another one like the loop. A compiled
template that reads names through all scopes shows the first one. No compiled template may name the
second one. -/
theorem data_before_operation_escape :
    let engine : Engine := {}
    let fields : Keyed Value := [("escape", .string "<"), ("each", .bool true)]
    (∃ e T E', engine.read (Source.rawTag "escape") { recurse := true } = .ok e ∧
      engine.buildTemplate 0 .compiledAsync e {} = some (.ok T, E') ∧
      ∃ F', T.render engine 1 (.object (.outer 0) fields) E' = some (.ok "<", F')) ∧
    ∃ e, engine.read (Source.rawTag "each") {} = .ok e ∧
      engine.buildTemplate 0 .compiledSync e {} =
        some (.error (.misuse (.loopArguments "each" 0)), {}) := by
  intro engine fields
  constructor
  · have hname : BareName "escape" :=
      ⟨by decide, rfl, rfl, rfl, by decide, by decide, by decide⟩
    have hfield : Keyed.find? "escape" fields = some (.string "<") := rfl
    obtain ⟨e, hread, -, hshows⟩ := data_before_operation engine rfl hname rfl rfl
      (.outer 0) hfield rfl { recurse := true } (fun _ => rfl) (fun _ => rfl) .compiledAsync 0 0 {}
    obtain ⟨T, E', hbuild, hrender⟩ := hshows fun _ => rfl
    obtain ⟨F', hF', -⟩ := hrender E'
    exact ⟨e, T, E', hread, hbuild, F', hF'⟩
  · have hfield : Keyed.find? "each" fields = some (.bool true) := rfl
    obtain ⟨e, hread, hrefused, -⟩ := data_before_operation engine rfl bareName_each rfl rfl
      (.outer 0) hfield rfl {} nofun nofun .compiledSync 0 0 {}
    exact ⟨e, hread, hrefused _ rfl rfl⟩

/-- A field that is named like the loop is shown by a walk, and by no compiled template. -/
theorem data_before_operation_fails :
    let engine : Engine := {}
    let data : Value := .object (.outer 0) [("each", .int 1)]
    ∃ e T E', engine.read (Source.rawTag "each") {} = .ok e ∧
      engine.buildTemplate 0 .interpreted e {} = some (.ok T, E') ∧
      (∃ F', T.render engine 1 data E' = some (.ok "1", F')) ∧
      engine.buildTemplate 0 .compiledSync e {} =
        some (.error (.misuse (.loopArguments "each" 0)), {}) := by
  intro engine data
  have hread : engine.read (Source.rawTag "each") {} = .ok (fieldOrCall false "each") := by
    rw [read, Source.readFolded_rawTag bareName_each,
      Source.pathExpr_operation bareName_each List.not_mem_nil rfl]
    rfl
  exact ⟨_, _, _, hread, rfl, ⟨_, rfl⟩, rfl⟩

end Engine

end Stencil
