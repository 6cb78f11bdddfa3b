import Stencil.Proofs.Conduct

/-!
# How expressions are built

To build an expression is to look up operations, one after the other: that of a call, and then those
of the arguments that the operation builds, in its own order. Arguments that an operation does not
build are never looked at. A property of computations that is told which operations they meet holds
of building an expression as soon as it holds of looking up one operation and of folding one call.

## Main results

* `Expr.met_subset`: whatever is met when an expression is built stands in the expression.
* `Tally.build`: what holds of looking up operations and of folding calls holds of building an
  expression, for the operations that are met.
* `Conduct.buildTemplate`: what holds of checks and of folding calls holds of building a template.
-/

namespace Stencil

/-! ### What is met -/

/-- The operations that are met when a call of the operation is built, given those of its arguments,
in the order of the build. The body of a definition counts only where bodies do. -/
def Operation.met (bodies : Bool) (op : Operation) (args : List (Operand (List String))) :
    List String :=
  match op with
  | .form _ => (Operand.positional args).flatten
  | .loop _ =>
    match loopParts? (Operand.positional args) with
    | some (selector, body, branch) => selector ++ (body ++ branch.getD [])
    | none => []
  | .context =>
    match contextParts? (Operand.positional args) with
    | some (value, body) => (Operand.values args).flatMap Prod.snd ++ (value.getD [] ++ body)
    | none => []
  | .template =>
    match Operand.positional args with
    | name :: _ => name ++ (Operand.values args).flatMap Prod.snd
    | [] => []
  | .define =>
    match definitionParts? (Operand.positional args) with
    | some (name, body) => name ++ if bodies then body else []
    | none => []
  | .lookup | .position _ => []
  | .method _ => args.flatMap Operand.made

namespace Expr

mutual

/-- The operations that are met when the expression is built, in the order of the build. The bodies
of definitions count only where `bodies` says so. -/
def met (bodies : Bool) (operations : Operations) : Expr → List String
  | .literal _ | .path _ => []
  | .named _ value => met bodies operations value
  | .call operation args =>
    operation ::
      match Keyed.find? operation operations with
      | some op => op.met bodies (Operand.ofLists args (mets bodies operations args))
      | none => []

/-- The operations that are met when the expressions of a list are built. -/
def mets (bodies : Bool) (operations : Operations) : List Expr → List (List String)
  | [] => []
  | e :: es => met bodies operations e :: mets bodies operations es

end

variable (bodies : Bool) (operations : Operations)

/-- What is met of a list is met of its expressions. -/
theorem mets_eq_map (es : List Expr) :
    mets bodies operations es = es.map (met bodies operations) := by
  induction es with
  | nil => rfl
  | cons e es ih => rw [mets, ih, List.map_cons]

/-- Names of arguments do not matter for what is met. -/
theorem met_unnamed : Operand.Unnamed (met bodies operations) :=
  fun _ _ => rfl

/-- What is met of a call beside the call itself. -/
def metWithin (op : Operation) (args : List Expr) : List String :=
  op.met bodies (Operand.ofLists args (args.map (met bodies operations)))

variable {operations}

/-- What is met of a call: the operation, and what is met within. -/
theorem met_call {operation : String} {op : Operation} (args : List Expr)
    (h : operations.get operation = .ok op) :
    met bodies operations (.call operation args) =
      operation :: metWithin bodies operations op args := by
  unfold met metWithin
  rw [Operations.get_eq_ok.mp h, mets_eq_map]

/-- What is met of a call stands in the parts of its layer, beside the body of a definition. -/
theorem metWithin_eq_parts {op : Operation} {args : List Expr}
    (hdefine : op = .define → bodies = false) :
    metWithin bodies operations op args =
      (op.layer operations .awaited args).parts.flatMap (met bodies operations) := by
  have hf := met_unnamed bodies operations
  unfold metWithin
  cases op with
  | form f =>
    simp only [Operation.met, Operation.layer, Operand.positional_map hf, Layer.parts, List.flatMap]
  | loop kind =>
    simp only [Operation.met, Operation.layer, Operand.positional_map hf, loopParts?_map]
    rcases loopParts? (splitArgs args).positional with _ | ⟨selector, body, _ | branch⟩
    · rfl
    · simp [Layer.parts, met, Expr.text]
    · simp [Layer.parts]
  | context =>
    simp only [Operation.met, Operation.layer, Operand.positional_map hf, Operand.values_map hf,
      contextParts?_map]
    rcases contextParts? (splitArgs args).positional with _ | ⟨_ | value, body⟩
    · rfl
    · simp [Layer.parts, Keyed.mapValues, List.flatMap_map]
    · simp [Layer.parts, Keyed.mapValues, List.flatMap_map]
  | template =>
    simp only [Operation.met, Operation.layer, Operand.positional_map hf, Operand.values_map hf]
    cases (splitArgs args).positional with
    | nil => rfl
    | cons name rest => simp [Layer.parts, Keyed.mapValues, List.flatMap_map]
  | define =>
    obtain rfl := hdefine rfl
    simp only [Operation.met, Operation.layer, Operand.positional_map hf, definitionParts?_map]
    rcases definitionParts? (splitArgs args).positional with _ | ⟨name, body⟩
    · rfl
    · simp [Layer.parts]
  | lookup =>
    simp only [Operation.met, Operation.layer]
    cases Operation.upwardPath args <;> rfl
  | position read => rfl
  | method m =>
    simp [Operation.met, Operation.layer, Operand.ofLists_map, List.flatMap_map, Operand.of,
      Layer.parts]

/-- What is met of a definition: its name, and its body where bodies count. -/
theorem metWithin_define (args : List Expr) :
    metWithin bodies operations .define args =
      match definitionParts? (splitArgs args).positional with
      | some (name, body) =>
        name.met bodies operations ++ if bodies then body.met bodies operations else []
      | none => [] := by
  unfold metWithin
  simp only [Operation.met, Operand.positional_map (met_unnamed bodies operations),
    definitionParts?_map]
  cases definitionParts? (splitArgs args).positional <;> rfl

/-- What holds of all that is met in the arguments of a call holds of all that is met in the call.
-/
theorem forall_metWithin {P : String → Prop} {op : Operation} {args : List Expr}
    (h : ∀ e ∈ args, ∀ name ∈ e.met bodies operations, P name) :
    ∀ name ∈ metWithin bodies operations op args, P name := by
  intro name hname
  by_cases hdefine : op = .define
  · subst hdefine
    rw [metWithin_define] at hname
    cases hparts : definitionParts? (splitArgs args).positional with
    | none =>
      rw [hparts] at hname
      exact absurd hname List.not_mem_nil
    | some parts =>
      obtain ⟨template, body⟩ := parts
      obtain ⟨htemplate, hbody⟩ := forall_definitionParts? hparts
        (forall_splitArgs (P := fun e => ∀ name ∈ e.met bodies operations, P name) h
          fun _ _ h => h).1
      rw [hparts] at hname
      rcases List.mem_append.mp hname with hname | hname
      · exact htemplate name hname
      · split at hname
        · exact hbody name hname
        · exact absurd hname List.not_mem_nil
  · rw [metWithin_eq_parts bodies fun h => absurd h hdefine] at hname
    obtain ⟨part, hpart, hname⟩ := List.mem_flatMap.mp hname
    exact op.forall_parts (P := fun e => ∀ name ∈ e.met bodies operations, P name) h
      (fun _ _ h => h) (fun _ h => absurd h List.not_mem_nil) part hpart name hname

/-- Whatever is met when an expression is built stands in the expression. -/
theorem met_subset (e : Expr) : ∀ name ∈ e.met bodies operations, name ∈ e.calls.map Prod.fst := by
  suffices h : ∀ e' : Expr, e'.Within e → ∀ name ∈ e'.met bodies operations,
      name ∈ e.calls.map Prod.fst from h e .self
  intro e'
  induction e' using induction with
  | literal v => exact fun _ _ h => absurd h List.not_mem_nil
  | path p => exact fun _ _ h => absurd h List.not_mem_nil
  | named name value ih => exact fun hwithin => ih (Within.trans (.named .self) hwithin)
  | call operation args ih =>
    intro hwithin
    have hself : operation ∈ e.calls.map Prod.fst :=
      List.mem_map_of_mem (f := Prod.fst) (hwithin.calls _ List.mem_cons_self)
    cases hop : Keyed.find? operation operations with
    | some op =>
      rw [met_call bodies args (Operations.get_eq_ok.mpr hop), List.forall_mem_cons]
      exact ⟨hself, forall_metWithin bodies fun e he =>
        ih e (size_le_sizes he) (Within.trans (.arg he .self) hwithin)⟩
    | none =>
      unfold met
      rw [hop]
      simpa using hself

end Expr

/-! ### Building -/

/-- A property of computations that is told which operations they meet. -/
structure Tally where
  Holds : {α : Type} → List String → EvalM α → Prop
  pure : ∀ {α : Type} (a : α), Holds [] (Pure.pure a : EvalM α)
  bind : ∀ {α β : Type} {names names' : List String} {m : EvalM α} {k : α → EvalM β},
    Holds names m → (∀ a, Holds names' (k a)) → Holds (names ++ names') (m >>= k)

/-- What a tally has to hold of for it to hold of building expressions. -/
structure Tally.Admits (T : Tally) (engine : Engine) (depth : Nat) : Prop where
  unknown : ∀ operation, Keyed.find? operation engine.operations = none →
    T.Holds [operation] (throw (.unknownOperation operation) : EvalM Fragment)
  known : ∀ {operation : String} {names : List String} {m : EvalM Fragment},
    (Keyed.find? operation engine.operations).isSome → T.Holds names m →
    T.Holds (operation :: names) m
  misuse : ∀ cause, T.Holds [] (throw (.misuse cause) : EvalM Fragment)
  mismatch : ∀ cause, T.Holds [] (EvalM.ofExcept (.error (.mismatch cause) : Except Error String))
  templates : T.Holds [] EvalM.templates
  /-- A call is folded, or meets some of its operations otherwise. -/
  fold : ∀ (e : Expr) {names : List String} {m : EvalM Fragment},
    (∀ name ∈ names, name ∈ e.calls.map Prod.fst) → T.Holds names m →
    T.Holds names (engine.tryFold depth e >>= fun folded =>
      match folded with
      | some v => Pure.pure (.const v)
      | none => m)

namespace Tally

variable {T : Tally}

/-- One computation after the other, where the second one meets nothing. -/
theorem bind_pure {α β : Type} {names : List String} {m : EvalM α} {k : α → EvalM β}
    (hm : T.Holds names m) (hk : ∀ a, T.Holds [] (k a)) : T.Holds names (m >>= k) := by
  have h := T.bind hm hk
  rwa [List.append_nil] at h

/-- What is met when fragments are built one after the other. -/
theorem buildAll {es : List Expr} {met : Expr → List String} {build : Expr → EvalM Fragment}
    (h : ∀ e ∈ es, T.Holds (met e) (build e)) :
    T.Holds (es.flatMap met) (Stencil.buildAll (es.map build)) := by
  induction es with
  | nil => exact T.pure _
  | cons e es ih =>
    obtain ⟨he, hes⟩ := List.forall_mem_cons.mp h
    exact T.bind he fun f => bind_pure (ih hes) fun fs => T.pure _

/-- What is met when fragments are built under their keys. -/
theorem buildKeyed {κ : Type} {es : List (κ × Expr)} {met : Expr → List String}
    {build : Expr → EvalM Fragment} (h : ∀ e ∈ es.map Prod.snd, T.Holds (met e) (build e)) :
    T.Holds ((es.map Prod.snd).flatMap met) (Stencil.buildKeyed (Keyed.mapValues build es)) := by
  induction es with
  | nil => exact T.pure _
  | cons e es ih =>
    obtain ⟨he, hes⟩ := List.forall_mem_cons.mp h
    exact T.bind he fun f => bind_pure (ih hes) fun fs => T.pure _

/-- What is met when a fragment is built that may be missing. -/
theorem buildOptional {e : Option Expr} {met : Expr → List String} {build : Expr → EvalM Fragment}
    (h : ∀ e' ∈ e.toList, T.Holds (met e') (build e')) :
    T.Holds (e.toList.flatMap met) (Stencil.buildOptional (e.map build)) := by
  cases e with
  | none => exact T.pure _
  | some e =>
    have hbuild := bind_pure (h e List.mem_cons_self) fun f => T.pure (some f)
    rwa [Option.toList_some, List.flatMap_singleton]

/-- What holds of building the parts of a layer holds of building the layer. -/
theorem layer {l : Layer Expr} {met : Expr → List String} {build : Expr → EvalM Fragment}
    (hdefine : ∀ name entry, l ≠ .define name entry)
    (hrefused : ∀ err, l = .refused err → T.Holds [] (throw err : EvalM Fragment))
    (h : ∀ e ∈ l.parts, T.Holds (met e) (build e)) :
    T.Holds (l.parts.flatMap met) (l.build build) := by
  cases l with
  | value | path | lookup | position => exact T.pure _
  | form f parts => exact bind_pure (buildAll h) fun fs => T.pure _
  | loop kind params selector body branch =>
    simp only [Layer.parts, List.forall_mem_cons] at h
    obtain ⟨hselector, hbody, hbranch, -⟩ := h
    simp only [Layer.parts, List.flatMap_cons, List.flatMap_nil, List.append_nil]
    exact T.bind hselector fun selector => T.bind hbody fun body =>
      bind_pure hbranch fun branch => T.pure _
  | context params named v body =>
    simp only [Layer.parts, List.forall_mem_append, List.forall_mem_singleton] at h
    obtain ⟨⟨hnamed, hv⟩, hbody⟩ := h
    simp only [Layer.parts, List.flatMap_append, List.flatMap_singleton, List.append_assoc]
    exact T.bind (buildKeyed hnamed) fun named => T.bind (buildOptional hv) fun v =>
      bind_pure hbody fun body => T.pure _
  | template name named =>
    obtain ⟨hname, hnamed⟩ := List.forall_mem_cons.mp h
    exact T.bind hname fun name => bind_pure (buildKeyed hnamed) fun named => T.pure _
  | define name entry => exact absurd rfl (hdefine name entry)
  | method m args => exact bind_pure (buildKeyed h) fun args => T.pure _
  | refused err => exact hrefused err rfl

/-- What holds of building the arguments of a call holds of building the call. -/
theorem operation {engine : Engine} {depth : Nat} (hT : T.Admits engine depth)
    {operations : Operations} {op : Operation} {args : List Expr} {build : Expr → EvalM Fragment}
    (hbuild : Operand.Unnamed build) (hempty : build (.text "") = Pure.pure (.const (.string "")))
    (h : ∀ e ∈ args, T.Holds (e.met true operations) (build e)) :
    T.Holds (Expr.metWithin true operations op args)
      (op.build operations (Operand.ofLists args (args.map build))) := by
  have hnamed (name : String) (value : Expr)
      (hvalue : T.Holds ((Expr.named name value).met true operations) (build (.named name value))) :
      T.Holds (value.met true operations) (build value) := hbuild name value ▸ hvalue
  by_cases hdefine : op = .define
  · subst hdefine
    rw [Expr.metWithin_define, Operation.build_define hbuild]
    cases hparts : definitionParts? (splitArgs args).positional with
    | none => exact hT.misuse _
    | some parts =>
      obtain ⟨name, body⟩ := parts
      obtain ⟨hname, hbody⟩ := forall_definitionParts? hparts (forall_splitArgs h hnamed).1
      exact T.bind hname fun name => bind_pure hbody fun body =>
        bind_pure hT.templates fun R => T.pure _
  · rw [Expr.metWithin_eq_parts true fun h => absurd h hdefine,
      Operation.build_eq_layer hbuild hempty hdefine]
    refine layer (fun name entry hl => hdefine (Operation.eq_of_layer hl rfl))
      (fun err hl => ?_) (op.forall_parts h hnamed ?_)
    · rcases Operation.layer_refused hl with ⟨cause, rfl⟩ | ⟨cause, rfl⟩
      · exact hT.misuse cause
      · exact bind_pure (hT.mismatch cause) fun p => T.pure (Fragment.lookup p)
    · rw [hempty]
      exact T.pure _

/-- What holds of looking up operations and of folding calls holds of building an expression, for
the operations that are met. -/
theorem build {engine : Engine} {depth : Nat} (hT : T.Admits engine depth) (e : Expr) :
    T.Holds (e.met true engine.operations) (engine.build depth e) := by
  induction e using Expr.induction with
  | literal v => exact T.pure _
  | path p => exact T.pure _
  | named name value ih => exact ih
  | call called args ih =>
    cases hop : Keyed.find? called engine.operations with
    | none =>
      have hunknown := hT.unknown called hop
      unfold Engine.build Operations.get Expr.met
      rw [hop]
      exact hunknown
    | some op =>
      have hget : engine.operations.get called = .ok op := Operations.get_eq_ok.mpr hop
      have hwithin : ∀ name ∈ Expr.metWithin true engine.operations op args,
          name ∈ (Expr.call called args).calls.map Prod.fst := by
        intro name hname
        refine Expr.met_subset true (.call called args) name
          (?_ : name ∈ Expr.met true engine.operations _)
        rw [Expr.met_call true args hget]
        exact List.mem_cons_of_mem _ hname
      rw [Expr.met_call true args hget, engine.build_call depth hget]
      refine hT.known (by rw [hop]; rfl) (hT.fold (.call called args) hwithin ?_)
      exact bind_pure (operation hT (fun _ _ => rfl) rfl fun e he => ih e (Expr.size_le_sizes he))
        fun f => T.pure _

end Tally

/-! ### Conduct of builds -/

namespace Conduct

variable {C : Conduct}

/-- A property that does not ask which operations are met. -/
def tally (C : Conduct) : Tally where
  Holds _ m := C.Holds m
  pure := C.pure
  bind := C.bind

/-- What holds of failures, of looking at the templates and of folding calls holds of building an
expression. -/
theorem build (engine : Engine) (depth : Nat)
    (hchecked : ∀ {α : Type} (result : Except Error α), C.Holds (EvalM.ofExcept result))
    (htemplates : C.Holds EvalM.templates) (hfold : ∀ e, C.Holds (engine.tryFold depth e))
    (e : Expr) : C.Holds (engine.build depth e) := by
  refine Tally.build (T := C.tally) ?_ e
  exact
    { unknown := fun operation _ => hchecked (.error (.unknownOperation operation))
      known := fun _ hm => hm
      misuse := fun cause => hchecked (.error (.misuse cause))
      mismatch := fun _ => hchecked _
      templates := htemplates
      fold := fun e _ _ _ hm => C.bind (hfold e) fun folded => by
        cases folded with
        | some v => exact C.pure _
        | none => exact hm }

/-- What holds of a build and of what is done with the entries of an expression, walked as it is or
built, holds of making its entry and going on. -/
theorem buildEntry (engine : Engine) (depth : Nat) (htemplates : C.Holds EvalM.templates)
    {e : Expr} (hbuild : C.Holds (engine.build depth e)) (name : String) (interpreted : Bool)
    {α : Type} {k : TemplateEntry → EvalM α}
    (hwalked : ∀ R, C.Holds (k (TemplateEntry.interpreted engine.operations R name e)))
    (hbuilt : ∀ R f, C.Holds (k (TemplateEntry.compiled engine.operations R name e f))) :
    C.Holds (engine.buildEntry depth name e interpreted >>= k) := by
  unfold Engine.buildEntry
  split
  · simp only [bind_assoc, pure_bind]
    exact C.bind htemplates hwalked
  · simp only [bind_assoc, pure_bind]
    exact C.bind hbuild fun f => C.bind htemplates fun R => hbuilt R f

/-- What holds of checks and of what a build does holds of building a template. -/
theorem buildTemplate (engine : Engine) (depth : Nat)
    (hchecked : ∀ {α : Type} (result : Except Error α), C.Holds (EvalM.ofExcept result))
    (htemplates : C.Holds EvalM.templates) (hfold : ∀ e, C.Holds (engine.tryFold depth e))
    (strategy : Strategy) (e : Expr) : C.Holds (engine.buildTemplate depth strategy e) := by
  unfold Engine.buildTemplate
  split
  · exact C.bind (build engine depth hchecked htemplates hfold e) fun f =>
      C.bind (hchecked _) fun _ => C.pure _
  · exact C.bind (hchecked _) fun _ => C.pure _

end Conduct

end Stencil
