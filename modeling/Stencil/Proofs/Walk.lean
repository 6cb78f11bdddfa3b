import Stencil.Proofs.Layer

/-!
# Expressions in layers

The outermost layer of an expression resolves its operation and takes its arguments apart. What is
evaluated, built or analysed of a call is the same for each of its arguments, so that taking the
arguments apart first and treating them afterwards leads to the same parts.

## Main results

* `Split.ofList_map`: arguments are taken apart in the same way before and after they are treated.
* `Expr.eval_eq_run`: an expression is evaluated layer by layer.
* `Expr.size_lt`: the parts of the layer of an expression are smaller than the expression.
-/

namespace Stencil

/-! ### Arguments that are treated alike -/

/-- Taking apart commutes with a treatment that respects names. -/
theorem Split.ofList_map {α β : Type} {named? : α → Option (String × α)}
    {named?' : β → Option (String × β)} (f : α → β)
    (hnamed : ∀ a, named?' (f a) = (named? a).map fun entry => (entry.1, f entry.2))
    (as : List α) :
    Split.ofList named?' (as.map f) =
      { positional := (Split.ofList named? as).positional.map f
        named := Keyed.mapValues f (Split.ofList named? as).named } := by
  have hpush : ∀ (split : Split α) (a : α),
      Split.push named?'
          { positional := split.positional.map f, named := Keyed.mapValues f split.named } (f a) =
        { positional := (Split.push named? split a).positional.map f
          named := Keyed.mapValues f (Split.push named? split a).named } := by
    intro split a
    unfold Split.push
    rw [hnamed]
    cases named? a with
    | none => simp
    | some entry => simp [Keyed.insert_mapValues]
  suffices h : ∀ split : Split α,
      (as.map f).foldl (Split.push named?')
          { positional := split.positional.map f, named := Keyed.mapValues f split.named } =
        { positional := (as.foldl (Split.push named?) split).positional.map f
          named := Keyed.mapValues f (as.foldl (Split.push named?) split).named } from h {}
  induction as with
  | nil => exact fun _ => rfl
  | cons a as ih =>
    intro split
    rw [List.map_cons, List.foldl_cons, hpush]
    exact ih _

namespace Operand

variable {α : Type} {f : Expr → α}

/-- An argument and what a treatment makes of it. -/
def of (f : Expr → α) (e : Expr) : Operand α :=
  ⟨e, f e⟩

/-- Operands are made of arguments one by one. -/
theorem ofLists_map (f : Expr → α) (args : List Expr) :
    ofLists args (args.map f) = args.map (of f) := by
  unfold ofLists
  rw [List.zipWith_map_right, List.zipWith_self]
  rfl

/-- A treatment gives a named argument what it gives its value. -/
def Unnamed (f : Expr → α) : Prop :=
  ∀ name value, f (.named name value) = f value

variable (hf : Unnamed f) (args : List Expr)

include hf in
/-- Operands are split as their arguments are. -/
theorem split_map :
    split (ofLists args (args.map f)) =
      { positional := (splitArgs args).positional.map (of f)
        named := Keyed.mapValues (of f) (splitArgs args).named } := by
  rw [ofLists_map]
  refine Split.ofList_map (of f) ?_ args
  intro e
  cases e with
  | named name value => simp [named?, Expr.named?, of, hf name value]
  | _ => rfl

include hf in
/-- The positional operands are those of the positional arguments. -/
theorem positional_map :
    positional (ofLists args (args.map f)) = (splitArgs args).positional.map f := by
  rw [positional, split_map hf, List.map_map]
  rfl

include hf in
/-- The values are those of the named arguments. -/
theorem values_map :
    values (ofLists args (args.map f)) = Keyed.mapValues f (splitArgs args).values := by
  rw [values, split_map hf, Split.values, Split.values]
  simp only [Keyed.mapValues, List.filter_map, List.map_map]
  rfl

include hf in
/-- The block parameters are those of the arguments. -/
theorem params_map : params (ofLists args (args.map f)) = blockParams (splitArgs args) := by
  rw [params, split_map hf, blockParams, Keyed.find?_mapValues, Option.map_map]
  exact congrArg declaredParams Option.map_id'

/-- Operands keep their arguments. -/
theorem map_expr : (ofLists args (args.map f)).map expr = args := by
  rw [ofLists_map, List.map_map]
  exact List.map_id' args

/-- What is made of the arguments of a method, with their names. -/
theorem made_map : (ofLists args (args.map f)).map (fun o => (o.named?.map Prod.fst, o.made)) =
    Keyed.mapValues f (args.map fun e => (e.named?.map Prod.fst, e)) := by
  rw [ofLists_map]
  simp only [Keyed.mapValues, List.map_map]
  exact List.map_congr_left fun e _ => by cases e <;> rfl

end Operand

/-- The parts of a loop are taken apart before or after a function is applied. -/
theorem loopParts?_map {α β : Type} (f : α → β) (as : List α) :
    loopParts? (as.map f) =
      (loopParts? as).map fun parts => (f parts.1, f parts.2.1, parts.2.2.map f) := by
  rcases as with _ | ⟨_, _ | ⟨_, _ | ⟨_, _ | _⟩⟩⟩ <;> rfl

/-- The parts of a context are taken apart before or after a function is applied. -/
theorem contextParts?_map {α β : Type} (f : α → β) (as : List α) :
    contextParts? (as.map f) =
      (contextParts? as).map fun parts => (parts.1.map f, f parts.2) := by
  rcases as with _ | ⟨_, _ | ⟨_, _ | _⟩⟩ <;> rfl

/-- The parts of a definition are taken apart before or after a function is applied. -/
theorem definitionParts?_map {α β : Type} (f : α → β) (as : List α) :
    definitionParts? (as.map f) =
      (definitionParts? as).map fun parts => (f parts.1, f parts.2) := by
  rcases as with _ | ⟨_, _ | ⟨_, _ | _⟩⟩ <;> rfl

/-- What holds of all arguments holds of the parts of a loop. -/
theorem forall_loopParts? {α : Type} {P : α → Prop} {as : List α} {selector body : α}
    {branch : Option α} (h : loopParts? as = some (selector, body, branch))
    (has : ∀ a ∈ as, P a) : P selector ∧ P body ∧ ∀ a, branch = some a → P a := by
  rcases as with _ | ⟨_, _ | ⟨_, _ | ⟨_, _ | _⟩⟩⟩ <;> cases h <;> simp_all

/-- What holds of all arguments holds of the parts of a context. -/
theorem forall_contextParts? {α : Type} {P : α → Prop} {as : List α} {value : Option α} {body : α}
    (h : contextParts? as = some (value, body)) (has : ∀ a ∈ as, P a) :
    (∀ a, value = some a → P a) ∧ P body := by
  rcases as with _ | ⟨_, _ | ⟨_, _ | _⟩⟩ <;> cases h <;> simp_all

/-- What holds of all arguments holds of the parts of a definition. -/
theorem forall_definitionParts? {α : Type} {P : α → Prop} {as : List α} {name body : α}
    (h : definitionParts? as = some (name, body)) (has : ∀ a ∈ as, P a) : P name ∧ P body := by
  rcases as with _ | ⟨_, _ | ⟨_, _ | _⟩⟩ <;> cases h
  simp_all

/-! ### Layers of expressions -/

/-- The parameters of a loop of a kind with some arguments. -/
def LoopKind.params (kind : LoopKind) (split : Split Expr) : List String :=
  match kind with
  | .each => blockParams split
  | .section => []

/-- The layer of a call of the operation. A loop without an else branch leaves nothing. -/
def Operation.layer (operations : Operations) (mode : Mode) (op : Operation) (args : List Expr) :
    Layer Expr :=
  let split := splitArgs args
  match op with
  | .form f => .form f split.positional
  | .loop kind =>
    match loopParts? split.positional with
    | some (selector, body, branch) =>
      .loop kind (kind.params split) selector body (branch.getD (.text ""))
    | none => .refused (.misuse (.loopArguments kind.name split.positional.length))
  | .context =>
    match contextParts? split.positional with
    | some (value, body) => .context (blockParams split) split.values value body
    | none => .refused (.misuse .contextArguments)
  | .template =>
    match split.positional with
    | name :: _ => .template name split.values
    | [] => .refused (.misuse .templateName)
  | .define =>
    match definitionParts? split.positional with
    | some (name, body) =>
      .define name fun templates key => TemplateEntry.interpreted operations templates key body
    | none => .refused (.misuse .definitionArguments)
  | .lookup =>
    match upwardPath args with
    | .ok p => .lookup p
    | .error err => .refused err
  | .position read => .position read
  | .method m =>
    if m.isAsync ∧ mode = .sync then .refused (.awaitRequired m.name)
    else .method m (args.map fun e => (e.named?.map Prod.fst, e))

namespace Expr

/-- The layer of an expression. -/
def layer (operations : Operations) (mode : Mode) : Expr → Layer Expr
  | .literal v => .value v
  | .path p => .path p
  | .named _ value => layer operations mode value
  | .call operation args =>
    match operations.get operation with
    | .ok op => op.layer operations mode args
    | .error err => .refused err

/-- The layer of a call is that of its operation. -/
theorem layer_call {operations : Operations} {mode : Mode} {operation : String} {args : List Expr}
    {op : Operation} (h : operations.get operation = .ok op) :
    (Expr.call operation args).layer operations mode = op.layer operations mode args := by
  unfold layer
  rw [h]

/-- A call of a known operation has the layer of the operation. -/
theorem layer_of_find? {operations : Operations} {mode : Mode} {operation : String}
    {args : List Expr} {op : Operation} (h : Keyed.find? operation operations = some op) :
    (Expr.call operation args).layer operations mode = op.layer operations mode args :=
  layer_call (Operations.get_eq_ok.mpr h)

/-- A call of an unknown operation is refused. -/
theorem layer_of_find?_none {operations : Operations} {mode : Mode} {operation : String}
    {args : List Expr} (h : Keyed.find? operation operations = none) :
    (Expr.call operation args).layer operations mode = .refused (.unknownOperation operation) := by
  unfold layer
  rw [Operations.get_of_find?_none h]

/-- A list is evaluated expression by expression. -/
theorem evals_eq_map (walk : Walk) (es : List Expr) : evals walk es = es.map (eval walk) := by
  induction es with
  | nil => rfl
  | cons e es ih => rw [evals, ih, List.map_cons]

/-- Names of arguments do not matter for their evaluation. -/
theorem eval_unnamed (walk : Walk) : Operand.Unnamed (eval walk) := fun _ _ => rfl

end Expr

/-- The arguments of a method are evaluated like named parts. -/
theorem evalArguments_eq (f : Expr → Lazy) (args : List Expr) (done : Arguments) (s : Scope) :
    evalArguments (args.map (Operand.of f)) done s =
      evalBuiltArguments (Keyed.mapValues f (args.map fun e => (e.named?.map Prod.fst, e)))
        done s := by
  induction args generalizing done with
  | nil => rfl
  | cons e args ih =>
    have hname : (Operand.of f e).named?.map Prod.fst = e.named?.map Prod.fst := by
      cases e <;> rfl
    simp only [List.map_cons, evalArguments, Keyed.mapValues_cons, evalBuiltArguments, hname]
    exact bind_congr fun v => ih _

/-- A call evaluates the layer of its operation. -/
theorem Operation.eval_eq_run (walk : Walk) (op : Operation) (args : List Expr) :
    op.eval walk (Operand.ofLists args (Expr.evals walk args)) =
      (op.layer walk.operations walk.mode args).run (walk.run walk.mode) (Expr.eval walk) := by
  have hf := Expr.eval_unnamed walk
  rw [Expr.evals_eq_map]
  cases op with
  | form f =>
    simp only [Operation.eval, Operand.positional_map hf]
    rfl
  | loop kind =>
    simp only [Operation.eval, Operation.layer, Operand.positional_map hf,
      Operand.params_map hf, loopParts?_map, List.length_map]
    rcases loopParts? (splitArgs args).positional with _ | ⟨selector, body, _ | branch⟩
    · rfl
    · cases kind <;> rfl
    · cases kind <;> rfl
  | context =>
    simp only [Operation.eval, Operation.layer, Operand.positional_map hf,
      Operand.params_map hf, Operand.values_map hf, contextParts?_map]
    cases contextParts? (splitArgs args).positional <;> rfl
  | template =>
    simp only [Operation.eval, Operation.layer, Operand.positional_map hf, Operand.values_map hf]
    cases (splitArgs args).positional <;> rfl
  | define =>
    simp only [Operation.eval, Operation.layer, Operand.split_map hf, definitionParts?_map]
    cases definitionParts? (splitArgs args).positional <;> rfl
  | lookup =>
    simp only [Operation.eval, Operation.layer, Operand.map_expr]
    cases upwardPath args <;> rfl
  | position read => rfl
  | method m =>
    funext s
    simp only [Operation.eval, Operation.evalMethod, Operation.layer, Operand.ofLists_map,
      evalArguments_eq]
    by_cases h : m.isAsync = true ∧ walk.mode = .sync
    · rw [if_pos h, if_pos h]
      rfl
    · rw [if_neg h, if_neg h]
      rfl

namespace Expr

/-- Leaves are evaluated alike in both modes. -/
theorem eval_of_isLeaf (walk : Walk) (mode : Mode) : ∀ {e : Expr}, e.isLeaf = true →
    eval { walk with mode } e = eval walk e
  | .literal _, _ | .path _, _ => rfl
  | .named _ value, h => eval_of_isLeaf walk mode (e := value) h

/-- The shortcut for calls that are never awaited makes no difference. -/
theorem eval_through (walk : Walk) (op : Operation) (args : List Expr) :
    op.eval (walk.through op args) (Operand.ofLists args (evals (walk.through op args) args)) =
      op.eval walk (Operand.ofLists args (evals walk args)) := by
  unfold Walk.through
  split
  · next h =>
    obtain ⟨hop, hleaf⟩ := Bool.and_eq_true_iff.mp h
    have hargs : evals { walk with mode := .sync } args = evals walk args := by
      rw [evals_eq_map, evals_eq_map]
      exact List.map_congr_left fun e he => eval_of_isLeaf walk .sync
        (List.all_eq_true.mp hleaf e he)
    rw [hargs]
    cases op with
    | template => exact Bool.noConfusion hop
    | method m =>
      have hm : m.isAsync = false := by simpa [Operation.isSync] using hop
      funext s
      simp [Operation.eval, Operation.evalMethod, hm]
    | _ => rfl
  · rfl

/-- An expression is evaluated layer by layer. -/
theorem eval_eq_run (walk : Walk) : ∀ e : Expr,
    eval walk e = (e.layer walk.operations walk.mode).run (walk.run walk.mode) (eval walk)
  | .literal _ | .path _ => rfl
  | .named _ value => eval_eq_run walk value
  | .call operation args => by
    simp only [eval, layer]
    cases walk.operations.get operation with
    | ok op =>
      funext s
      show op.eval (walk.through op args) _ s = _
      rw [eval_through, Operation.eval_eq_run]
    | error err => rfl

end Expr

/-! ### What holds of the parts of a call -/

/-- What is in a list after a value is put in is the value, or was there before. -/
theorem Keyed.mem_insert {α : Type} {key : String} {value : α} {entries : Keyed α}
    {entry : String × α} (h : entry ∈ Keyed.insert key value entries) :
    entry.2 = value ∨ entry ∈ entries := by
  induction entries with
  | nil =>
    obtain rfl := List.mem_singleton.mp h
    exact .inl rfl
  | cons first entries ih =>
    unfold Keyed.insert at h
    split at h
    · rcases List.mem_cons.mp h with rfl | h
      · exact .inl rfl
      · exact .inr (List.mem_cons_of_mem _ h)
    · rcases List.mem_cons.mp h with rfl | h
      · exact .inr List.mem_cons_self
      · exact (ih h).imp_right (List.mem_cons_of_mem _)

/-- What holds of all arguments, and of a value as soon as it holds under a name, holds of what
the arguments are taken apart into. -/
theorem forall_splitArgs {P : Expr → Prop} {args : List Expr} (hargs : ∀ e ∈ args, P e)
    (hnamed : ∀ name value, P (.named name value) → P value) :
    (∀ e ∈ (splitArgs args).positional, P e) ∧ ∀ entry ∈ (splitArgs args).named, P entry.2 := by
  suffices h : ∀ split : Split Expr, (∀ e ∈ split.positional, P e) →
      (∀ entry ∈ split.named, P entry.2) →
      (∀ e ∈ (args.foldl (Split.push Expr.named?) split).positional, P e) ∧
        ∀ entry ∈ (args.foldl (Split.push Expr.named?) split).named, P entry.2 from
    h {} (fun _ h => absurd h List.not_mem_nil) (fun _ h => absurd h List.not_mem_nil)
  induction args with
  | nil => exact fun split hpositional hvalues => ⟨hpositional, hvalues⟩
  | cons e args ih =>
    intro split hpositional hvalues
    have he := hargs e List.mem_cons_self
    refine ih (fun e he => hargs e (List.mem_cons_of_mem _ he)) _ ?_ ?_
    · intro c hc
      unfold Split.push at hc
      split at hc
      · exact hpositional c hc
      · rcases List.mem_append.mp hc with hc | hc
        · exact hpositional c hc
        · exact List.mem_singleton.mp hc ▸ he
    · intro entry hentry
      unfold Split.push at hentry
      split at hentry
      · next name value hname =>
        rcases Keyed.mem_insert hentry with heq | hentry
        · cases e with
          | named n v =>
            obtain ⟨rfl, rfl⟩ := Prod.mk.inj (Option.some.inj hname)
            exact heq ▸ hnamed _ _ he
          | _ => cases hname
        · exact hvalues entry hentry
      · exact hvalues entry hentry

/-- What holds of all arguments of a call, of the values of named arguments and of the empty text
holds of the parts of its layer. -/
theorem Operation.forall_parts {P : Expr → Prop} {operations : Operations} {mode : Mode}
    {op : Operation} {args : List Expr} (hargs : ∀ e ∈ args, P e)
    (hnamed : ∀ name value, P (.named name value) → P value) (htext : P (.text "")) :
    ∀ e ∈ (op.layer operations mode args).parts, P e := by
  obtain ⟨hpositional, hvalues⟩ := forall_splitArgs hargs hnamed
  replace hvalues : ∀ e ∈ (splitArgs args).values.map Prod.snd, P e := by
    intro e he
    obtain ⟨entry, hentry, rfl⟩ := List.mem_map.mp he
    exact hvalues entry (List.mem_of_mem_filter hentry)
  cases op with
  | form f => exact hpositional
  | loop kind =>
    simp only [Operation.layer]
    cases hparts : loopParts? (splitArgs args).positional with
    | none => exact fun _ h => absurd h List.not_mem_nil
    | some parts =>
      obtain ⟨selector, body, branch⟩ := parts
      obtain ⟨hselector, hbody, hbranch⟩ := forall_loopParts? hparts hpositional
      intro e he
      simp only [Layer.parts, List.mem_cons, List.not_mem_nil, or_false] at he
      rcases he with rfl | rfl | rfl
      · exact hselector
      · exact hbody
      · cases branch with
        | none => exact htext
        | some branch => exact hbranch _ rfl
  | context =>
    simp only [Operation.layer]
    cases hparts : contextParts? (splitArgs args).positional with
    | none => exact fun _ h => absurd h List.not_mem_nil
    | some parts =>
      obtain ⟨value, body⟩ := parts
      obtain ⟨hvalue, hbody⟩ := forall_contextParts? hparts hpositional
      intro e he
      simp only [Layer.parts, List.mem_append, List.mem_singleton, Option.mem_toList] at he
      rcases he with (he | he) | rfl
      · exact hvalues e he
      · exact hvalue e he
      · exact hbody
  | template =>
    simp only [Operation.layer]
    cases hname : (splitArgs args).positional with
    | nil => exact fun _ h => absurd h List.not_mem_nil
    | cons name rest =>
      intro e he
      rcases List.mem_cons.mp he with rfl | he
      · exact hpositional _ (hname ▸ List.mem_cons_self)
      · exact hvalues e he
  | define =>
    simp only [Operation.layer]
    cases hparts : definitionParts? (splitArgs args).positional with
    | none => exact fun _ h => absurd h List.not_mem_nil
    | some parts =>
      intro e he
      obtain rfl := List.mem_singleton.mp he
      exact (forall_definitionParts? hparts hpositional).1
  | lookup =>
    simp only [Operation.layer]
    cases upwardPath args <;> simp [Layer.parts]
  | position read => exact fun _ h => absurd h List.not_mem_nil
  | method m =>
    simp only [Operation.layer]
    split
    · exact fun _ h => absurd h List.not_mem_nil
    · intro e he
      simp only [Layer.parts, List.map_map, Function.comp_def, List.map_id'] at he
      exact hargs e he

namespace Expr

mutual

/-- How many calls an expression holds. -/
def size : Expr → Nat
  | .literal _ | .path _ => 0
  | .named _ value => size value
  | .call _ args => sizes args + 1

/-- How many calls the expressions of a list hold together. -/
def sizes : List Expr → Nat
  | [] => 0
  | e :: es => size e + sizes es

end

/-- An expression of a list is no larger than the list. -/
theorem size_le_sizes {e : Expr} {es : List Expr} (h : e ∈ es) : e.size ≤ sizes es := by
  induction es with
  | nil => exact absurd h List.not_mem_nil
  | cons first es ih =>
    rcases List.mem_cons.mp h with rfl | h
    · exact Nat.le_add_right _ _
    · exact Nat.le_trans (ih h) (Nat.le_add_left _ _)

/-- What holds of leaves, of a named argument as soon as it holds of its value, and of a call as
soon as it holds of everything that is no larger than its arguments holds of all expressions. -/
theorem induction {P : Expr → Prop} (literal : ∀ v, P (.literal v)) (path : ∀ p, P (.path p))
    (named : ∀ name value, P value → P (.named name value))
    (call : ∀ operation args, (∀ e, e.size ≤ sizes args → P e) → P (.call operation args))
    (e : Expr) : P e := by
  suffices h : ∀ n e, e.size < n → P e from h _ e (Nat.lt_succ_self _)
  intro n
  induction n with
  | zero => exact fun e h => absurd h (Nat.not_lt_zero _)
  | succ n ih =>
    intro e
    induction e using Expr.rec (motive_2 := fun _ => True) with
    | literal v => exact fun _ => literal v
    | path p => exact fun _ => path p
    | named name value hvalue => exact fun h => named name value (hvalue h)
    | call operation args =>
      intro h
      exact call operation args fun e he => ih e (Nat.lt_of_le_of_lt he (Nat.lt_of_succ_lt_succ h))
    | nil => trivial
    | cons => trivial

/-- The parts of the layer of an expression are smaller than the expression. -/
theorem size_lt {operations : Operations} {mode : Mode} : ∀ {e part : Expr},
    part ∈ (e.layer operations mode).parts → part.size < e.size
  | .literal _, _, h | .path _, _, h => absurd h List.not_mem_nil
  | .named _ value, _, h => size_lt (e := value) h
  | .call operation args, part, h => by
    simp only [layer] at h
    cases hop : operations.get operation with
    | ok op =>
      rw [hop] at h
      have hle : part.size ≤ sizes args :=
        op.forall_parts (P := fun e => e.size ≤ sizes args) (fun e => size_le_sizes)
          (fun _ _ h => h) (Nat.zero_le _) part h
      exact Nat.lt_succ_of_le hle
    | error err =>
      rw [hop] at h
      exact absurd h List.not_mem_nil

/-- What holds of an expression as soon as it holds of the parts of its layer holds of all
expressions. -/
theorem layer_induction (operations : Operations) (mode : Mode) {P : Expr → Prop}
    (step : ∀ e, (∀ part ∈ (e.layer operations mode).parts, P part) → P e) : ∀ e, P e := fun e =>
  (measure size).wf.induction e fun e ih => step e fun part h => ih part (size_lt h)

/-! ### The calls of the parts -/

/-- The first expression stands in the second one. -/
inductive Within (part : Expr) : Expr → Prop
  | self : Within part part
  | named {name : String} {value : Expr} : Within part value → Within part (.named name value)
  | arg {operation : String} {args : List Expr} {e : Expr} : e ∈ args → Within part e →
      Within part (.call operation args)

/-- What is within a part is within the whole. -/
theorem Within.trans {part e e' : Expr} (h : part.Within e) (h' : e.Within e') :
    part.Within e' := by
  induction h' with
  | self => exact h
  | named _ ih => exact .named ih
  | arg he _ ih => exact .arg he ih

/-- A call in a list is a call in one of its expressions. -/
theorem exists_of_mem_callsIn {c : String × Nat} {es : List Expr} (h : c ∈ callsIn es) :
    ∃ e ∈ es, c ∈ e.calls := by
  induction es with
  | nil => exact absurd h List.not_mem_nil
  | cons e es ih =>
    rcases List.mem_append.mp h with h | h
    · exact ⟨e, List.mem_cons_self, h⟩
    · obtain ⟨e', he', h⟩ := ih h
      exact ⟨e', List.mem_cons_of_mem _ he', h⟩

/-- A call in an expression of a list is a call in the list. -/
theorem mem_callsIn {c : String × Nat} {e : Expr} {es : List Expr} (he : e ∈ es)
    (hc : c ∈ e.calls) : c ∈ callsIn es := by
  induction es with
  | nil => exact absurd he List.not_mem_nil
  | cons first es ih =>
    rcases List.mem_cons.mp he with rfl | he
    · exact List.mem_append_left _ hc
    · exact List.mem_append_right _ (ih he)

/-- The calls of a part are calls of the whole. -/
theorem Within.calls {part e : Expr} (h : part.Within e) : ∀ c ∈ part.calls, c ∈ e.calls := by
  induction h with
  | self => exact fun _ h => h
  | named _ ih => exact ih
  | arg he _ ih => exact fun c hc => List.mem_cons_of_mem _ (mem_callsIn he (ih c hc))

/-- What a call with some arguments is taken apart into stands in the call. -/
theorem within_of_mem_positional {operation : String} {args : List Expr} :
    ∀ e ∈ (splitArgs args).positional, e.Within (.call operation args) :=
  (forall_splitArgs (fun _ he => .arg he .self) fun _ _ h => Within.trans (.named .self) h).1

/-- The parts of the layer of an expression stand in the expression, or are the empty text. -/
theorem within_of_mem_parts {operations : Operations} {mode : Mode} : ∀ {e part : Expr},
    part ∈ (e.layer operations mode).parts → part.Within e ∨ part = .text ""
  | .literal _, _, h | .path _, _, h => absurd h List.not_mem_nil
  | .named _ value, _, h => (within_of_mem_parts (e := value) h).imp_left .named
  | .call operation args, part, h => by
    unfold layer at h
    cases hop : operations.get operation with
    | ok op =>
      rw [hop] at h
      exact op.forall_parts (P := fun e => e.Within (.call operation args) ∨ e = .text "")
        (fun e he => .inl (.arg he .self))
        (fun _ _ h => .inl (h.elim (Within.trans (.named .self)) nofun)) (.inr rfl) part h
    | error err =>
      rw [hop] at h
      exact absurd h List.not_mem_nil

/-- The parts of the layer of an expression call nothing that the expression does not call. -/
theorem calls_of_mem_parts {operations : Operations} {mode : Mode} {e part : Expr}
    (h : part ∈ (e.layer operations mode).parts) : ∀ c ∈ part.calls, c ∈ e.calls := by
  rcases within_of_mem_parts h with h | rfl
  · exact h.calls
  · exact fun c hc => absurd hc List.not_mem_nil

/-- The layer of an expression is a leaf, or that of an operation that the expression calls. -/
theorem layer_cases (operations : Operations) (mode : Mode) : ∀ e : Expr,
    (∃ v, e.layer operations mode = .value v) ∨ (∃ p, e.layer operations mode = .path p) ∨
      (∃ err, e.layer operations mode = .refused err) ∨
      ∃ c ∈ e.calls, ∃ op args, Keyed.find? c.1 operations = some op ∧
        e.layer operations mode = op.layer operations mode args
  | .literal v => .inl ⟨v, rfl⟩
  | .path p => .inr (.inl ⟨p, rfl⟩)
  | .named _ value => layer_cases operations mode value
  | .call operation args => by
    cases hop : Keyed.find? operation operations with
    | some op =>
      exact .inr (.inr (.inr ⟨_, List.mem_cons_self, op, args, hop, layer_of_find? hop⟩))
    | none => exact .inr (.inr (.inl ⟨.unknownOperation operation, layer_of_find?_none hop⟩))

/-- An expression in which no operation is found that is sought has parts in which none is. -/
theorem firstOperation?_of_mem_parts {operations : Operations} {sought : Operation → Bool}
    {mode : Mode} {e part : Expr} (h : e.firstOperation? operations sought = none)
    (hpart : part ∈ (e.layer operations mode).parts) :
    part.firstOperation? operations sought = none := by
  rw [firstOperation?_eq_none] at h ⊢
  exact fun c hc => h c (calls_of_mem_parts hpart c hc)

end Expr

/-- The operation that a layer shows. A leaf shows none, and neither does a call that is refused. -/
def Layer.operation? {α : Type} : Layer α → Option Operation
  | .form f _ => some (.form f)
  | .loop kind .. => some (.loop kind)
  | .context .. => some .context
  | .template .. => some .template
  | .define .. => some .define
  | .lookup _ => some .lookup
  | .position read => some (.position read)
  | .method m _ => some (.method m)
  | .value _ | .path _ | .refused _ => none

namespace Operation

variable {operations : Operations} {mode : Mode} {op : Operation} {args : List Expr}

/-- The layer of an operation shows that operation, if any. -/
theorem eq_of_layer {l : Layer Expr} {shown : Operation} (h : op.layer operations mode args = l)
    (hl : l.operation? = some shown) : op = shown := by
  subst h
  cases op with
  | form => exact Option.some.inj hl
  | position => exact Option.some.inj hl
  | loop | context | template | define | lookup | method =>
    simp only [layer] at hl
    split at hl <;> cases hl
    rfl

/-- The layer of a loop consists of the parts of the call. -/
theorem loopParts_of_layer {kind : LoopKind} {params : List String} {selector body branch : Expr}
    (h : op.layer operations mode args = .loop kind params selector body branch) :
    ∃ branch, loopParts? (splitArgs args).positional = some (selector, body, branch) := by
  obtain rfl := eq_of_layer h rfl
  simp only [layer] at h
  split at h <;> cases h
  next hparts => exact ⟨_, hparts⟩

/-- A definition makes the entry of a body that is one of its arguments. -/
theorem body_of_layer {name : Expr} {entry : EntryMaker}
    (h : op.layer operations mode args = .define name entry) :
    ∃ body ∈ (splitArgs args).positional,
      entry = fun templates key => TemplateEntry.interpreted operations templates key body := by
  obtain rfl := eq_of_layer h rfl
  simp only [layer] at h
  split at h <;> cases h
  next hparts => exact ⟨_, (forall_definitionParts? hparts fun _ h => h).2, rfl⟩

/-- Where operations are awaited, a call is refused only for its arguments. -/
theorem layer_refused {err : Error} (h : op.layer operations .awaited args = .refused err) :
    (∃ cause, err = .misuse cause) ∨ ∃ cause, err = .mismatch cause := by
  cases op with
  | form => cases h
  | position => cases h
  | method m => simp [layer] at h
  | loop | context | template | define =>
    simp only [layer] at h
    split at h <;> cases h
    exact .inl ⟨_, rfl⟩
  | lookup =>
    simp only [layer] at h
    split at h <;> cases h
    next hpath =>
      unfold upwardPath at hpath
      split at hpath <;> cases hpath
      exact .inr ⟨_, rfl⟩

end Operation

namespace Expr

variable {operations : Operations} {mode : Mode} {e : Expr}

/-- The expression calls the operation that its layer shows. -/
theorem exists_call {l : Layer Expr} {op : Operation} (h : e.layer operations mode = l)
    (hl : l.operation? = some op) : ∃ c ∈ e.calls, Keyed.find? c.1 operations = some op := by
  subst h
  rcases e.layer_cases operations mode with ⟨v, h⟩ | ⟨p, h⟩ | ⟨err, h⟩ | ⟨c, hc, op', args, hop, h⟩
  · rw [h] at hl
    cases hl
  · rw [h] at hl
    cases hl
  · rw [h] at hl
    cases hl
  · exact ⟨c, hc, Operation.eq_of_layer h.symm hl ▸ hop⟩

/-- A definition makes the entry of a body that stands in the expression. -/
theorem exists_define : ∀ {e name : Expr} {entry : EntryMaker},
    e.layer operations mode = .define name entry →
      ∃ body, body.Within e ∧
        entry = fun templates key => TemplateEntry.interpreted operations templates key body
  | .literal _, _, _, h | .path _, _, _, h => by cases h
  | .named _ value, _, _, h => by
    obtain ⟨body, hbody, hentry⟩ := exists_define (e := value) h
    exact ⟨body, .named hbody, hentry⟩
  | .call operation args, name, entry, h => by
    cases hop : operations.get operation with
    | ok op =>
      rw [layer_call hop] at h
      obtain ⟨body, hbody, rfl⟩ := Operation.body_of_layer h
      exact ⟨body, within_of_mem_positional body hbody, rfl⟩
    | error err =>
      unfold layer at h
      rw [hop] at h
      cases h

/-- Where no operation is found that is sought, none that is called is sought. -/
theorem not_sought {sought : Operation → Bool} {c : String × Nat} {op : Operation}
    (h : e.firstOperation? operations sought = none) (hc : c ∈ e.calls)
    (hop : Keyed.find? c.1 operations = some op) : sought op = false := by
  obtain ⟨op', hop', hsought⟩ := firstOperation?_eq_none.mp h c hc
  rwa [Option.some.inj (hop.symm.trans hop')]

end Expr

end Stencil
