import Stencil.Proofs.Code
import Stencil.Synthesis

/-!
# What is built

A fragment that has been built has the layers of its expression: the same operation, with parts that
have been built from the parts of the call. The exceptions are constants that stand for folded
calls, and a note of what a fragment has to be awaited for. What is known of the effects while parts
are built, and of how deep calls may nest then, is kept as an invariant.

## Main results

* `Operation.build_eq_layer`: an operation other than a definition is built like its layer.
* `Engine.build_assembled`: a built fragment is a folded call or has the layer of its expression.
* `Engine.BuildsIn.shape_le`: what is built stays within a shape when all operations that are called
  do.
* `Engine.BuildsIn.untouched`: a fragment touches the frames around it only if its expression may.
-/

namespace Stencil

/-- A computation that ends in a value goes through a value of its first part. -/
theorem EvalM.bind_eq_ok {α β : Type} {m : EvalM α} {k : α → EvalM β} {E E'' : Effects} {b : β}
    (h : (m >>= k) E = some (.ok b, E'')) :
    ∃ a E', m E = some (.ok a, E') ∧ k a E' = some (.ok b, E'') := by
  rw [bind_apply] at h
  rcases hm : m E with _ | ⟨_ | a, E'⟩ <;> rw [hm] at h
  · cases h
  · cases h
  · exact ⟨a, E', rfl, h⟩

/-! ### Building layers -/

/-- Builds a layer, given how its parts are built. A definition is built otherwise, because its body
is no part of its layer. -/
def Layer.build {α : Type} (build : α → EvalM Fragment) : Layer α → EvalM Fragment
  | .value v => return .const v
  | .path p => return .path p
  | .lookup p => return .lookup p
  | .position read => return .position read
  | .form f parts => return .form f (← buildAll (parts.map build))
  | .loop kind params selector body branch => do
    let selector ← build selector
    let body ← build body
    return .loop kind params selector body (← build branch)
  | .context params named v body => do
    let named ← buildKeyed (Keyed.mapValues build named)
    let v ← buildOptional (v.map build)
    return .context params named v (← build body)
  | .template name named => do
    let name ← build name
    return .template name (← buildKeyed (Keyed.mapValues build named))
  | .define _ _ => throw (.misuse .definitionArguments)
  | .method m args => return .method m (← buildKeyed (Keyed.mapValues build args))
  | .refused err => throw err

namespace Operation

variable {operations : Operations} {args : List Expr} {m : Expr → EvalM Fragment}

/-- An operation other than a definition is built like its layer. -/
theorem build_eq_layer {op : Operation} (hm : Operand.Unnamed m)
    (hempty : m (.text "") = pure (.const (.string ""))) (hop : op ≠ .define) :
    op.build operations (Operand.ofLists args (args.map m)) =
      (op.layer operations .awaited args).build m := by
  cases op with
  | form f => simp only [build, layer, Operand.positional_map hm, Layer.build]
  | loop kind =>
    simp only [build, layer, Operand.positional_map hm, Operand.params_map hm, loopParts?_map,
      List.length_map]
    rcases loopParts? (splitArgs args).positional with _ | ⟨selector, body, _ | branch⟩
    · rfl
    · simp only [Option.map_some, Option.map_none, Option.getD_none, buildOptional, Layer.build,
        hempty, pure_bind]
      cases kind <;> rfl
    · simp only [Option.map_some, Option.getD_some, buildOptional, Layer.build, bind_assoc,
        pure_bind]
      cases kind <;> rfl
  | context =>
    simp only [build, layer, Operand.positional_map hm, Operand.params_map hm,
      Operand.values_map hm, contextParts?_map]
    cases contextParts? (splitArgs args).positional <;> rfl
  | template =>
    simp only [build, layer, Operand.positional_map hm, Operand.values_map hm]
    cases (splitArgs args).positional <;> rfl
  | define => exact absurd rfl hop
  | lookup =>
    simp only [build, layer, Operand.map_expr]
    cases upwardPath args <;> rfl
  | position read => rfl
  | method meth =>
    simp only [build, layer, Operand.made_map, and_false, reduceCtorEq, if_false, Layer.build]

/-- A definition is built from its name and its body. -/
theorem build_define (hm : Operand.Unnamed m) :
    define.build operations (Operand.ofLists args (args.map m)) =
      match definitionParts? (splitArgs args).positional with
      | some (name, body) => do
        let builtName ← m name
        let builtBody ← m body
        return .define builtName builtBody (body.traits operations (← EvalM.templates))
      | none => throw (.misuse .definitionArguments) := by
  simp only [build, Operand.split_map hm, definitionParts?_map]
  cases definitionParts? (splitArgs args).positional <;> rfl

end Operation

namespace Engine

variable (engine : Engine) (Inv : Nat → Effects → Prop)

/-- The fragment has been built from the expression while an invariant held. -/
def BuildsIn (e : Expr) (f : Fragment) : Prop :=
  ∃ depth E E', Inv depth E ∧ engine.build depth e E = some (.ok f, E')

/-- The value has been folded from the expression while an invariant held. -/
def FoldsIn (e : Expr) (v : Value) : Prop :=
  ∃ depth E E', Inv depth E ∧ engine.tryFold depth e E = some (.ok (some v), E')

/-- The entry of a definition that is walked, and the one of the definition that has been built. -/
inductive Makes : EntryMaker → EntryMaker → Prop
  | intro {e : Expr} {f : Fragment} {depth : Nat} {E : Effects} : BuildsIn engine Inv e f →
    Inv depth E →
    Makes (fun templates key => TemplateEntry.interpreted engine.operations templates key e)
      (fun _ key => TemplateEntry.defined key f (e.traits engine.operations E.templates))

/-- What the layers of expressions and of built fragments have in common. -/
def building : Pairing where
  templates := True
  methods := Eq
  entries := Makes engine Inv

/-- The layers of an expression and a fragment are the same in both modes, with parts that have been
built from each other. -/
def SameLayers (e : Expr) (f : Fragment) : Prop :=
  ∀ mode, (e.layer engine.operations mode).Rel (building engine Inv) (BuildsIn engine Inv)
    (f.layer mode)

/-- How a fragment that has been built relates to its expression. -/
inductive Assembled : Expr → Fragment → Prop
  | folded {e : Expr} {v : Value} : FoldsIn engine Inv e v → Assembled e (.const v)
  | layered {e : Expr} {f : Fragment} : SameLayers engine Inv e f → f.awaited? = none →
    f.shape ≠ .async → Assembled e f
  | awaiting {e : Expr} {f : Fragment} (operation : String) : SameLayers engine Inv e f →
    f.awaited? = none → f.shape = .async → Assembled e (.awaiting operation f)

/-- Folding keeps the invariant. -/
def FoldKeeps : Prop :=
  ∀ depth e E E' r, Inv depth E → engine.tryFold depth e E = some (r, E') → Inv depth E'

/-- Building the expression keeps the invariant. -/
def BuildKeeps (depth : Nat) (e : Expr) : Prop :=
  ∀ E f E', Inv depth E → engine.build depth e E = some (.ok f, E') → Inv depth E'

/-- The effects that a folded expression is evaluated with, in a run of its own. -/
def foldEffects (E : Effects) : Effects :=
  { E with run := E.kept + 1, made := 0, kept := E.kept + 1 }

variable {engine Inv} in
/-- An expression is left to run time, or is deterministic and has been evaluated. -/
theorem tryFold_cases {depth : Nat} {e : Expr} {E E' : Effects} {r : Except Error (Option Value)}
    (h : engine.tryFold depth e E = some (r, E')) :
    (r = .ok none ∧ E' = E) ∨
      (e.isDeterministic engine.operations E.templates = true ∧
        e.firstAsync? engine.operations = none ∧
        ∃ result after, engine.evalExpr depth .sync e (Scope.root .null) (foldEffects E) =
            some (result, after) ∧
          r = .ok result.toOption ∧ E' = { after with run := E.run, made := E.made }) := by
  unfold tryFold at h
  simp only [EvalM.bind_apply, EvalM.templates] at h
  split at h
  · next hfold =>
    simp only [Bool.and_eq_true, Option.isNone_iff_eq_none] at hfold
    simp only [EvalM.attempt, EvalM.keeping, Option.map_map, Option.map_eq_some_iff] at h
    obtain ⟨⟨result, after⟩, heval, h⟩ := h
    refine .inr ⟨hfold.1.2, hfold.2, result, after, heval, ?_⟩
    cases result with
    | ok v =>
      cases h
      exact ⟨rfl, rfl⟩
    | error err =>
      cases h
      exact ⟨rfl, rfl⟩
  · cases h
    exact .inl ⟨rfl, rfl⟩

/-! ### Building parts -/

variable {engine Inv}

/-- Without folding an expression is left to run time. -/
theorem tryFold_of_fold (hfold : engine.settings.fold = false) (depth : Nat) (e : Expr)
    (E : Effects) : engine.tryFold depth e E = some (.ok none, E) := by
  unfold tryFold
  simp only [EvalM.bind_apply, EvalM.templates, hfold]
  rfl

/-- Expressions that are built one after the other are built each into its fragment. -/
theorem buildAll_ok {depth : Nat} {es : List Expr}
    (hkeeps : ∀ e ∈ es, BuildKeeps engine Inv depth e)
    {E E' : Effects} {fs : List Fragment} (hE : Inv depth E)
    (h : buildAll (es.map (engine.build depth)) E = some (.ok fs, E')) :
    List.Forall₂ (BuildsIn engine Inv) es fs ∧ Inv depth E' := by
  induction es generalizing E fs with
  | nil =>
    cases h
    exact ⟨.nil, hE⟩
  | cons e es ih =>
    obtain ⟨f, E₁, hf, h⟩ := EvalM.bind_eq_ok h
    obtain ⟨fs, E₂, hfs, h⟩ := EvalM.bind_eq_ok h
    cases h
    have hE₁ := hkeeps e List.mem_cons_self _ _ _ hE hf
    obtain ⟨hrest, hE₂⟩ := ih (fun e he => hkeeps e (List.mem_cons_of_mem _ he)) hE₁ hfs
    exact ⟨.cons ⟨depth, E, E₁, hE, hf⟩ hrest, hE₂⟩

/-- Named expressions are built each into its fragment, under their names. -/
theorem buildKeyed_ok {κ : Type} {depth : Nat} {es : List (κ × Expr)}
    (hkeeps : ∀ e ∈ es, BuildKeeps engine Inv depth e.2) {E E' : Effects}
    {fs : List (κ × Fragment)} (hE : Inv depth E)
    (h : buildKeyed (Keyed.mapValues (engine.build depth) es) E = some (.ok fs, E')) :
    List.Forall₂ (Layer.NamedRel (BuildsIn engine Inv)) es fs ∧ Inv depth E' := by
  induction es generalizing E fs with
  | nil =>
    cases h
    exact ⟨.nil, hE⟩
  | cons e es ih =>
    obtain ⟨f, E₁, hf, h⟩ := EvalM.bind_eq_ok h
    obtain ⟨fs, E₂, hfs, h⟩ := EvalM.bind_eq_ok h
    cases h
    have hE₁ := hkeeps e List.mem_cons_self _ _ _ hE hf
    obtain ⟨hrest, hE₂⟩ := ih (fun e he => hkeeps e (List.mem_cons_of_mem _ he)) hE₁ hfs
    exact ⟨.cons ⟨rfl, depth, E, E₁, hE, hf⟩ hrest, hE₂⟩

/-- An expression that need not be there is built into a fragment if it is there. -/
theorem buildOptional_ok {depth : Nat} {e : Option Expr}
    (hkeeps : ∀ c, e = some c → BuildKeeps engine Inv depth c) {E E' : Effects}
    {f : Option Fragment} (hE : Inv depth E)
    (h : buildOptional (e.map (engine.build depth)) E = some (.ok f, E')) :
    Option.Rel (BuildsIn engine Inv) e f ∧ Inv depth E' := by
  cases e with
  | none =>
    cases h
    exact ⟨.none, hE⟩
  | some e =>
    obtain ⟨f, E₁, hf, h⟩ := EvalM.bind_eq_ok h
    cases h
    exact ⟨.some ⟨depth, E, _, hE, hf⟩, hkeeps e rfl _ _ _ hE hf⟩

/-- The builds of a list are those of its members. -/
theorem builds_eq_map (engine : Engine) (depth : Nat) (es : List Expr) :
    engine.builds depth es = es.map (engine.build depth) := by
  induction es with
  | nil => rfl
  | cons e es ih => rw [builds, ih, List.map_cons]

/-- A call is folded, or built from its arguments. -/
theorem build_call (engine : Engine) {operation : String} {args : List Expr} {op : Operation}
    (depth : Nat) (h : engine.operations.get operation = .ok op) :
    engine.build depth (.call operation args) =
      (do
        match ← engine.tryFold depth (.call operation args) with
        | some value => return .const value
        | none =>
          let f ← op.build engine.operations
            (Operand.ofLists args (args.map (engine.build depth)))
          return engine.markAwaiting operation args f) := by
  rw [build, h, builds_eq_map]
  rfl

/-- Without folding a call is built from its arguments. -/
theorem build_call_of_fold (hfold : engine.settings.fold = false) {operation : String}
    {args : List Expr} {op : Operation} (depth : Nat)
    (h : engine.operations.get operation = .ok op) :
    engine.build depth (.call operation args) =
      (do
        let f ← op.build engine.operations (Operand.ofLists args (args.map (engine.build depth)))
        return engine.markAwaiting operation args f) := by
  funext E
  rw [build_call engine depth h, EvalM.bind_apply, tryFold_of_fold hfold]

/-- What is built from a layer other than that of a method has the same layer in both modes, with
parts that have been built from its parts. -/
theorem layer_build_ok {depth : Nat} {l : Layer Expr} (hmethod : ∀ m args, l ≠ .method m args)
    (hkeeps : ∀ e ∈ l.parts, BuildKeeps engine Inv depth e) {E E' : Effects} {f : Fragment}
    (hE : Inv depth E) (h : l.build (engine.build depth) E = some (.ok f, E')) :
    (∀ mode, l.Rel (building engine Inv) (BuildsIn engine Inv) (f.layer mode)) ∧
      f.awaited? = none ∧ Inv depth E' := by
  have hvalues : ∀ {named : List (String × Expr)},
      (∀ e ∈ named.map Prod.snd, BuildKeeps engine Inv depth e) →
      ∀ e ∈ named, BuildKeeps engine Inv depth e.2 := fun h e he =>
    h e.2 (List.mem_map_of_mem he)
  cases l with
  | value | path | lookup | position =>
    cases h
    exact ⟨fun _ => by constructor, rfl, hE⟩
  | form fm parts =>
    obtain ⟨fs, E₁, hfs, h⟩ := EvalM.bind_eq_ok h
    cases h
    obtain ⟨hparts, hE'⟩ := buildAll_ok hkeeps hE hfs
    exact ⟨fun _ => .form fm hparts, rfl, hE'⟩
  | loop kind params selector body branch =>
    simp only [Layer.parts, List.forall_mem_cons] at hkeeps
    obtain ⟨hselector, hbody, hbranch, -⟩ := hkeeps
    obtain ⟨selector', E₁, hs, h⟩ := EvalM.bind_eq_ok h
    obtain ⟨body', E₂, hb, h⟩ := EvalM.bind_eq_ok h
    obtain ⟨branch', E₃, hbr, h⟩ := EvalM.bind_eq_ok h
    cases h
    have hE₁ := hselector _ _ _ hE hs
    have hE₂ := hbody _ _ _ hE₁ hb
    exact ⟨fun _ => .loop kind params ⟨depth, E, E₁, hE, hs⟩ ⟨depth, E₁, E₂, hE₁, hb⟩
      ⟨depth, E₂, _, hE₂, hbr⟩, rfl, hbranch _ _ _ hE₂ hbr⟩
  | context params named v body =>
    simp only [Layer.parts, List.forall_mem_append, List.forall_mem_singleton] at hkeeps
    obtain ⟨⟨hnamed, hv⟩, hbody⟩ := hkeeps
    obtain ⟨named', E₁, hn, h⟩ := EvalM.bind_eq_ok h
    obtain ⟨v', E₂, hv', h⟩ := EvalM.bind_eq_ok h
    obtain ⟨body', E₃, hb, h⟩ := EvalM.bind_eq_ok h
    cases h
    obtain ⟨hnamed', hE₁⟩ := buildKeyed_ok (hvalues hnamed) hE hn
    obtain ⟨hrel, hE₂⟩ := buildOptional_ok (fun c hc => hv c (by simp [hc])) hE₁ hv'
    exact ⟨fun _ => .context params hnamed' hrel ⟨depth, E₂, _, hE₂, hb⟩, rfl,
      hbody _ _ _ hE₂ hb⟩
  | template name named =>
    obtain ⟨hname, hnamed⟩ := List.forall_mem_cons.mp hkeeps
    obtain ⟨name', E₁, hn, h⟩ := EvalM.bind_eq_ok h
    obtain ⟨named', E₂, hv, h⟩ := EvalM.bind_eq_ok h
    cases h
    obtain ⟨hnamed', hE₂⟩ := buildKeyed_ok (hvalues hnamed) (hname _ _ _ hE hn) hv
    exact ⟨fun _ => .template trivial ⟨depth, E, E₁, hE, hn⟩ hnamed', rfl, hE₂⟩
  | define | refused => cases h
  | method m args => exact absurd rfl (hmethod m args)

/-- A call whose operation has been built has the layer of that operation. -/
theorem operation_build_ok {depth : Nat} {op : Operation} {args : List Expr}
    (hkeeps : ∀ e, e.size ≤ Expr.sizes args → BuildKeeps engine Inv depth e) {E E' : Effects}
    {f : Fragment} (hE : Inv depth E)
    (h : op.build engine.operations (Operand.ofLists args (engine.builds depth args)) E =
      some (.ok f, E')) :
    (∀ mode, (op.layer engine.operations mode args).Rel (building engine Inv)
        (BuildsIn engine Inv) (f.layer mode)) ∧
      f.awaited? = none ∧ Inv depth E' := by
  have hf : Operand.Unnamed (engine.build depth) := fun _ _ => rfl
  have hargs : ∀ e ∈ args, BuildKeeps engine Inv depth e := fun e he =>
    hkeeps e (Expr.size_le_sizes he)
  rw [builds_eq_map] at h
  have hother (hdefine : op ≠ .define) (hmethod : ∀ m, op ≠ .method m) :
      (∀ mode, (op.layer engine.operations .awaited args).Rel (building engine Inv)
        (BuildsIn engine Inv) (f.layer mode)) ∧ f.awaited? = none ∧ Inv depth E' := by
    rw [Operation.build_eq_layer hf rfl hdefine] at h
    refine layer_build_ok (fun m _ hl => hmethod m (Operation.eq_of_layer hl rfl)) ?_ hE h
    refine Operation.forall_parts hargs (fun _ _ h => h) fun E f E' hE h => ?_
    cases h
    exact hE
  cases op with
  | define =>
    rw [Operation.build_define hf] at h
    have hpositional := (forall_splitArgs hargs fun name value h => h).1
    simp only [Operation.layer]
    cases hparts : definitionParts? (splitArgs args).positional with
    | none =>
      rw [hparts] at h
      cases h
    | some parts =>
      obtain ⟨name, body⟩ := parts
      obtain ⟨hname, hbody⟩ := forall_definitionParts? hparts hpositional
      rw [hparts] at h
      obtain ⟨name', E₁, hn, h⟩ := EvalM.bind_eq_ok h
      obtain ⟨body', E₂, hb, h⟩ := EvalM.bind_eq_ok h
      obtain ⟨templates, E₃, ht, h⟩ := EvalM.bind_eq_ok h
      cases ht
      cases h
      have hE₁ := hname _ _ _ hE hn
      have hE₂ := hbody _ _ _ hE₁ hb
      exact ⟨fun _ => .define ⟨depth, E, E₁, hE, hn⟩ (.intro ⟨depth, E₁, _, hE₁, hb⟩ hE₂), rfl, hE₂⟩
  | method m =>
    simp only [Operation.build, Operand.made_map] at h
    obtain ⟨args', E₁, ha, h⟩ := EvalM.bind_eq_ok h
    cases h
    obtain ⟨hargs', hE₁⟩ := buildKeyed_ok (by simpa using hargs) hE ha
    refine ⟨fun mode => ?_, rfl, hE₁⟩
    simp only [Operation.layer, Fragment.layer]
    split
    · exact .refused _
    · exact .method rfl hargs'
  | form | loop | context | template | lookup | position =>
    exact hother (fun h => by cases h) fun _ h => by cases h

/-- A name makes no difference to how a fragment relates to its expression. -/
theorem Assembled.named {name : String} {value : Expr} {f : Fragment}
    (h : Assembled engine Inv value f) : Assembled engine Inv (.named name value) f := by
  cases h with
  | folded h => exact .folded h
  | layered h hf hshape => exact .layered h hf hshape
  | awaiting operation h hf hshape => exact .awaiting operation h hf hshape

/-- A fragment that has been built is a folded call, or has the layer of its expression. The
invariant still holds. -/
theorem build_assembled (hfold : FoldKeeps engine Inv) (depth : Nat) (e : Expr) :
    ∀ {E f E'}, Inv depth E → engine.build depth e E = some (.ok f, E') →
      Assembled engine Inv e f ∧ Inv depth E' := by
  induction e using Expr.induction with
  | literal v =>
    intro E f E' hE h
    cases h
    exact ⟨.layered (fun _ => .value v) rfl nofun, hE⟩
  | path p =>
    intro E f E' hE h
    cases h
    exact ⟨.layered (fun _ => .path p) rfl nofun, hE⟩
  | named name value ih =>
    intro E f E' hE h
    obtain ⟨hvalue, hE'⟩ := ih hE h
    exact ⟨hvalue.named, hE'⟩
  | call operation args ih =>
    intro E f E' hE h
    unfold build at h
    obtain ⟨op, E₁, hget, h⟩ := EvalM.bind_eq_ok h
    obtain ⟨hop, rfl⟩ := Prod.mk.inj (Option.some.inj hget)
    obtain ⟨folded, E₂, htry, h⟩ := EvalM.bind_eq_ok h
    have hE₂ := hfold _ _ _ _ _ hE htry
    cases folded with
    | some v =>
      cases h
      exact ⟨.folded ⟨depth, E, _, hE, htry⟩, hE₂⟩
    | none =>
      obtain ⟨f₀, E₃, hf₀, h⟩ := EvalM.bind_eq_ok h
      obtain ⟨hlayer, hawaited, hE₃⟩ :=
        operation_build_ok (fun part hpart _ _ _ hE h => (ih part hpart hE h).2) hE₂ hf₀
      have hsame : SameLayers engine Inv (.call operation args) f₀ := by
        intro mode
        rw [Expr.layer_call hop]
        exact hlayer mode
      cases h
      refine ⟨?_, hE₃⟩
      unfold markAwaiting
      split
      · next hshape => exact .awaiting _ hsame hawaited hshape
      · next hshape => exact .layered hsame hawaited hshape

/-- What has been built is assembled from its parts. -/
theorem BuildsIn.assembled (hfold : FoldKeeps engine Inv) {e : Expr} {f : Fragment}
    (h : BuildsIn engine Inv e f) : Assembled engine Inv e f := by
  obtain ⟨depth, E, E', hE, h⟩ := h
  exact (build_assembled hfold depth e hE h).1

/-- The layer of a fragment that has been built is a constant, is refused because it has to be
awaited, or is the layer of its expression. -/
theorem BuildsIn.layer_cases (hfold : FoldKeeps engine Inv) {e : Expr} {f : Fragment}
    (h : BuildsIn engine Inv e f) (mode : Mode) :
    (∃ v, f.layer mode = .value v) ∨
      (mode = .sync ∧ ∃ name, f.layer mode = .refused (.awaitRequired name)) ∨
      (e.layer engine.operations mode).Rel (building engine Inv) (BuildsIn engine Inv)
        (f.layer mode) := by
  cases h.assembled hfold with
  | folded => exact .inl ⟨_, rfl⟩
  | layered hsame => exact .inr (.inr (hsame mode))
  | awaiting operation hsame =>
    cases mode with
    | sync => exact .inr (.inl ⟨rfl, operation, rfl⟩)
    | awaited => exact .inr (.inr (hsame .awaited))

/-- The fragment has been built from the expression. -/
abbrev Builds (engine : Engine) : Expr → Fragment → Prop :=
  BuildsIn engine fun _ _ => True

/-- Folding keeps an invariant that says nothing. -/
theorem foldKeeps_true : FoldKeeps engine fun _ _ => True :=
  fun _ _ _ _ _ _ _ => trivial

/-- The layer of a fragment that has been built is the layer of its expression, unless it is a
constant or is refused. -/
theorem BuildsIn.layer_rel {e : Expr} {f : Fragment} (h : engine.Builds e f) {mode : Mode}
    {l : Layer Fragment} (hl : f.layer mode = l) (hvalue : ∀ v, l ≠ .value v)
    (hrefused : ∀ err, l ≠ .refused err) :
    (e.layer engine.operations mode).Rel (building engine fun _ _ => True) engine.Builds l := by
  subst hl
  rcases h.layer_cases foldKeeps_true mode with ⟨v, hv⟩ | ⟨-, name, hname⟩ | hrel
  · exact absurd hv (hvalue v)
  · exact absurd hname (hrefused _)
  · exact hrel

/-! ### What an expression tells of its fragments -/

end Engine

/-- How a call of the operation can be evaluated when its arguments are never awaited. -/
def Operation.shape : Operation → Shape
  | .method m => if m.isAsync then .async else .sync
  | .template => .dual
  | _ => .sync

/-- A method that is not asynchronous has no shape of its own. -/
theorem Operation.shape_method_le {m : Method} {shape : Shape} (h : m.isAsync = false) :
    (Operation.method m).shape ≤ shape := by
  have hshape : (Operation.method m).shape = .sync := if_neg (by simp [h])
  rw [hshape]
  exact shape.sync_le

namespace Expr

variable {operations : Operations}

/-- Every operation that the expression calls, as far as it is known, stays within a shape. -/
def CallsWithin (operations : Operations) (shape : Shape) (e : Expr) : Prop :=
  ∀ c ∈ e.calls, ∀ op, Keyed.find? c.1 operations = some op → op.shape ≤ shape

/-- What is never awaited calls only what is never awaited. -/
theorem callsWithin_of_isSync {e : Expr} (h : e.isSync operations = true) :
    e.CallsWithin operations .sync := by
  intro c hc op hop
  have hsync := not_sought (Option.isNone_iff_eq_none.mp h) hc hop
  cases op with
  | method m => exact Operation.shape_method_le (by simpa [Operation.isSync] using hsync)
  | template => exact Bool.noConfusion hsync
  | _ => exact Shape.sync_le _

/-- No method that the expression calls has to be awaited. -/
def MethodsSync (operations : Operations) (e : Expr) : Prop :=
  ∀ c ∈ e.calls, ∀ m, Keyed.find? c.1 operations = some (.method m) → m.isAsync = false

/-- Where nothing is found that has to be awaited, no method has to be. -/
theorem methodsSync_of_firstAsync? {e : Expr} (h : e.firstAsync? operations = none) :
    e.MethodsSync operations := by
  intro c hc m hm
  simpa [Operation.supportsSync] using not_sought h hc hm

/-- Where no method has to be awaited, everything can be tried without awaiting it. -/
theorem MethodsSync.callsWithin {e : Expr} (h : e.MethodsSync operations) :
    e.CallsWithin operations .dual := by
  intro c hc op hop
  cases op with
  | method m => exact Operation.shape_method_le (h c hc m hop)
  | template => exact (by decide : Shape.dual ≤ .dual)
  | _ => exact Shape.sync_le _

end Expr

namespace Engine

variable {engine : Engine} {Inv : Nat → Effects → Prop}

/-- What is built stays within a shape when all operations that are called do. -/
theorem BuildsIn.shape_le (hfold : FoldKeeps engine Inv) {shape : Shape} (e : Expr) :
    ∀ f, BuildsIn engine Inv e f → e.CallsWithin engine.operations shape → f.shape ≤ shape := by
  induction e using Expr.layer_induction engine.operations .awaited with
  | step e ih =>
    intro f hf he
    have hlayer : ∀ f, SameLayers engine Inv e f → f.awaited? = none → f.shape ≤ shape := by
      intro f hsame hawaited
      have hrel := hsame .awaited
      refine Fragment.shape_le hawaited (fun g hg => ?_) (fun name named hl => ?_)
        fun m args hl hm => ?_
      · obtain ⟨part, hpart, hg⟩ := hrel.exists_part hg
        exact ih part hpart g hg fun c hc => he c (Expr.calls_of_mem_parts hpart c hc)
      · rw [hl] at hrel
        generalize hl' : e.layer engine.operations .awaited = l at hrel
        cases hrel
        obtain ⟨c, hc, hop⟩ := Expr.exists_call hl' rfl
        exact he c hc _ hop
      · rw [hl] at hrel
        generalize hl' : e.layer engine.operations .awaited = l at hrel
        cases hrel with
        | method hmethods _ =>
          obtain rfl := hmethods
          obtain ⟨c, hc, hop⟩ := Expr.exists_call hl' rfl
          have hle := he c hc _ hop
          rwa [Operation.shape, if_pos hm] at hle
    cases hf.assembled hfold with
    | folded => exact shape.sync_le
    | layered hsame hawaited _ => exact hlayer f hsame hawaited
    | awaiting operation hsame hawaited hshape =>
      have hle := hlayer _ hsame hawaited
      rwa [hshape] at hle

/-- Where no method has to be awaited, nothing that is built has to be. -/
theorem BuildsIn.shape_le_dual (hfold : FoldKeeps engine Inv) (e : Expr) (f : Fragment)
    (hf : BuildsIn engine Inv e f) (he : e.MethodsSync engine.operations) : f.shape ≤ .dual :=
  hf.shape_le hfold e f he.callsWithin

/-- Where no method has to be awaited, what is built is a folded call or has the layer of its
expression. -/
theorem BuildsIn.folded_or_layered (hfold : FoldKeeps engine Inv) {e : Expr} {f : Fragment}
    (hf : BuildsIn engine Inv e f) (he : e.MethodsSync engine.operations) :
    (∃ v, f = .const v ∧ FoldsIn engine Inv e v) ∨ SameLayers engine Inv e f := by
  have hshape := hf.shape_le_dual hfold e f he
  cases hf.assembled hfold with
  | folded h => exact .inl ⟨_, rfl, h⟩
  | layered h => exact .inr h
  | awaiting => exact absurd (show Shape.async ≤ .dual from hshape) (by decide)

/-- A fragment touches the frames around it only if its expression may. -/
theorem BuildsIn.untouched (hfold : FoldKeeps engine Inv) (e : Expr) :
    ∀ f, BuildsIn engine Inv e f → e.capturesScope engine.operations = false →
      f.touchesFrames = false := by
  induction e using Expr.layer_induction engine.operations .awaited with
  | step e ih =>
    intro f hf he
    have hfirst : e.firstOperation? engine.operations Operation.capturesScope = none := by
      simpa [Expr.capturesScope] using he
    have hlayer : ∀ f, SameLayers engine Inv e f → f.awaited? = none → f.touchesFrames = false := by
      intro f hsame hawaited
      refine Fragment.untouched hawaited (fun g hg => ?_) (fun p hp => ?_) fun name named hn => ?_
      · obtain ⟨part, hpart, hg⟩ := (hsame .awaited).exists_part hg
        refine ih part hpart g hg ?_
        unfold Expr.capturesScope
        rw [Expr.firstOperation?_of_mem_parts hfirst hpart]
        rfl
      · have hrel := hsame .awaited
        rw [hp] at hrel
        generalize hl : e.layer engine.operations .awaited = l at hrel
        cases hrel
        obtain ⟨c, hc, hop⟩ := Expr.exists_call hl rfl
        exact Bool.noConfusion (Expr.not_sought hfirst hc hop)
      · have hrel := hsame .awaited
        rw [hn] at hrel
        generalize hl : e.layer engine.operations .awaited = l at hrel
        cases hrel
        obtain ⟨c, hc, hop⟩ := Expr.exists_call hl rfl
        exact Bool.noConfusion (Expr.not_sought hfirst hc hop)
    cases hf.assembled hfold with
    | folded => rfl
    | layered hsame hawaited _ => exact hlayer f hsame hawaited
    | @awaiting f operation hsame hawaited _ => exact hlayer f hsame hawaited

/-- Where a fragment leaves no frame behind, it does not see the one that its expression leaves. -/
theorem BuildsIn.eval_scope (hfold : FoldKeeps engine Inv) {e : Expr} {f : Fragment}
    (hf : BuildsIn engine Inv e f) {x y : TemplateEntry}
    (hx : x.capturesScope = e.capturesScope engine.operations)
    (hy : y.capturesScope = f.touchesFrames) (host : Host) (s : Scope) (v : Value) :
    (Code.built f).eval host (y.scope s v) = (Code.built f).eval host (x.scope s v) := by
  cases htouch : f.touchesFrames with
  | false =>
    refine Fragment.eval_of_untouched f _ htouch ?_
    unfold TemplateEntry.scope
    constructor <;> split <;> split <;> rfl
  | true =>
    have hcaptures : e.capturesScope engine.operations = true := by
      by_contra h
      have huntouched := BuildsIn.untouched hfold e f hf (Bool.of_not_eq_true h)
      exact Bool.noConfusion (htouch.symm.trans huntouched)
    unfold TemplateEntry.scope
    rw [hx, hy, htouch, hcaptures]

end Engine

end Stencil
