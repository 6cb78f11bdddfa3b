import Mathlib.Logic.Relation
import Stencil.Engine
import Stencil.Proofs.Building
import Stencil.Proofs.Steady

/-!
# Determinism

What the analysis calls deterministic with an unknown context has the same outcome in all scopes,
with one exception. A section is analysed as if its body always had the value of the selector for
its context, but where that value is `true` the body is evaluated in the scope around the section. A
section like this is right only when its body has the same outcome in all scopes anyway.

The analysis trusts what is stored with a registered template. It was found out over an earlier
registry, so that it still holds only as long as no name is registered again.

## Main results

* `Expr.Fixed.mono`: an expression stays deterministic when more templates are registered.
* `Engine.Grown.registerExpr`: registering an expression under a free name, built with folding or
  not, leads to a registry in which every name has been registered once.
* `Engine.deterministic_constant`: a deterministic expression has the same outcome in all scopes, as
  far as its sections that are `true` do.
* `Engine.section_of_true_differs`: a section over `true` that is deterministic and has not.
-/

namespace Stencil

/-- A template may be called by something deterministic: without values when its output depends on
nothing, and with values when it depends on its context alone. -/
def Registry.Callable (registry : Registry) (bare : Bool) (key : String) : Prop :=
  ∃ entry, Keyed.find? key registry = some entry ∧
    (if bare then entry.traits.isInlinable else entry.traits.isDeterministic) = true

/-- Whatever may be called by something deterministic in the first registry may be so in the second
one. -/
def Registry.Concedes (R S : Registry) : Prop :=
  ∀ bare key, R.Callable bare key → S.Callable bare key

/-- A larger registry concedes what a smaller one does. -/
theorem Registry.Within.concedes {R S : Registry} (h : R.Within S) : R.Concedes S := by
  rintro bare key ⟨entry, hfind, htraits⟩
  exact ⟨entry, h key entry hfind, htraits⟩

/-- The method is one of the operations, and deterministic. -/
def Operations.Deterministic (operations : Operations) (m : Method) : Prop :=
  m.deterministic = true ∧ ∃ name, Keyed.find? name operations = some (.method m)

/-- Two operations are the same, or are methods that are not deterministic. -/
def Operation.Agrees (op op' : Operation) : Prop :=
  op = op' ∨ ∃ m m', op = .method m ∧ op' = .method m' ∧ m.deterministic = false ∧
    m'.deterministic = false

/-- Two engines have the same operations, up to what their methods do that are not deterministic. -/
def Engine.Agrees (engine engine' : Engine) : Prop :=
  ∀ name, Option.Rel Operation.Agrees (Keyed.find? name engine.operations)
    (Keyed.find? name engine'.operations)

/-- An engine agrees with itself. -/
theorem Engine.Agrees.refl (engine : Engine) : engine.Agrees engine := fun name => by
  cases Keyed.find? name engine.operations with
  | none => exact .none
  | some op => exact .some (.inl rfl)

/-- Engines go on to agree when each gets a method of one name that is not deterministic. -/
theorem Engine.Agrees.addMethod {engine engine' : Engine} (h : engine.Agrees engine')
    {m m' : Method}
    (hname : m.name = m'.name) (hm : m.deterministic = false) (hm' : m'.deterministic = false) :
    (engine.addMethod m).Agrees (engine'.addMethod m') := by
  intro name
  unfold Engine.addMethod
  by_cases hkey : name = m'.name
  · rw [hkey, hname, Keyed.find?_insert_self, Keyed.find?_insert_self]
    exact .some (.inr ⟨m, m', rfl, rfl, hm, hm'⟩)
  · rw [hname, Keyed.find?_insert_ne hkey, Keyed.find?_insert_ne hkey]
    exact h name

namespace Expr

variable {operations : Operations} {registry : Registry}

/-- What is determined of a list is determined of its expressions. -/
theorem determinacies_eq_map (es : List Expr) :
    determinacies operations registry es = es.map (determinacy operations registry) := by
  induction es with
  | nil => rfl
  | cons e es ih => rw [determinacies, ih, List.map_cons]

/-- The expression is deterministic, with its context known or not. -/
def Fixed (operations : Operations) (registry : Registry) (known : Bool) (e : Expr) : Prop :=
  e.determinacy operations registry known = true

end Expr

/-! ### Deterministic calls -/

namespace Operation

variable {R : Registry} {f : Expr → Determinacy} {args : List Expr} {known : Bool}

/-- All operands are deterministic exactly when all arguments are. -/
theorem all_made_iff : ((Operand.ofLists args (args.map f)).all fun o => o.made known) = true ↔
    ∀ e ∈ args, f e known = true := by
  rw [Operand.ofLists_map]
  simp [Operand.of]

/-- All values are deterministic exactly if each of them is. -/
theorem all_values_iff {entries : Keyed Expr} :
    ((Keyed.mapValues f entries).all fun e => e.2 known) = true ↔
      ∀ e ∈ entries.map Prod.snd, f e known = true := by
  rw [Keyed.mapValues, List.all_map, List.all_eq_true, List.forall_mem_map]
  rfl

/-- A branch that may be missing is deterministic exactly if it is so when it is there. -/
theorem all_branch_iff {branch : Option Expr} : (branch.map f).all (· known) = true ↔
    ∀ e, branch = some e → f e known = true := by
  cases branch <;> simp

variable (hf : Operand.Unnamed f)

include hf

/-- A loop is deterministic when its selector and its values are, and its body and branch are with
the context that it gives them. -/
theorem determinacy_loop_iff {kind : LoopKind} :
    (loop kind).determinacy R (Operand.ofLists args (args.map f)) known = true ↔
      ∃ selector body branch,
        loopParts? (splitArgs args).positional = some (selector, body, branch) ∧
          f selector known = true ∧ (∀ e ∈ (splitArgs args).values.map Prod.snd, f e known = true) ∧
          f body true = true ∧ ∀ e, branch = some e → f e known = true := by
  simp only [determinacy, Operand.positional_map hf, Operand.values_map hf, loopParts?_map]
  cases loopParts? (splitArgs args).positional with
  | none => simp
  | some parts =>
    simp only [Option.map_some, Bool.and_eq_true, all_values_iff, all_branch_iff, and_assoc]
    constructor
    · exact fun h => ⟨_, _, _, rfl, h⟩
    · rintro ⟨_, _, _, hparts, h⟩
      exact Option.some.inj hparts ▸ h

/-- A context is deterministic when its value and its other values are, and its body is with a known
context. -/
theorem determinacy_context_iff :
    context.determinacy R (Operand.ofLists args (args.map f)) known = true ↔
      ∃ value body, contextParts? (splitArgs args).positional = some (value, body) ∧
        (∀ e ∈ (splitArgs args).values.map Prod.snd, f e known = true) ∧
        (∀ e, value = some e → f e known = true) ∧ f body true = true := by
  simp only [determinacy, Operand.positional_map hf, Operand.values_map hf, contextParts?_map]
  cases contextParts? (splitArgs args).positional with
  | none => simp
  | some parts =>
    simp only [Option.map_some, Bool.and_eq_true, all_values_iff, all_branch_iff, and_assoc]
    constructor
    · exact fun h => ⟨_, _, rfl, h⟩
    · rintro ⟨_, _, hparts, h⟩
      exact Option.some.inj hparts ▸ h

/-- A call of a template is deterministic when it names one that may be called so, and the values
that it gives are. -/
theorem determinacy_template_iff :
    template.determinacy R (Operand.ofLists args (args.map f)) known = true ↔
      ∃ v rest, (splitArgs args).positional = .literal v :: rest ∧
        R.Callable (splitArgs args).values.isEmpty v.keyText ∧
        ∀ e ∈ (splitArgs args).values.map Prod.snd, f e known = true := by
  simp only [determinacy, Operand.split_map hf, Operand.values_map hf]
  rcases (splitArgs args).positional with _ | ⟨_ | _ | _ | _, rest⟩
  · simp
  · next v =>
    simp only [List.map_cons, Operand.of, Keyed.isEmpty_mapValues, List.cons.injEq,
      Expr.literal.injEq, and_assoc, exists_and_left, exists_eq_left']
    unfold Registry.Callable
    cases Keyed.find? v.keyText R with
    | none => simp
    | some entry =>
      simp only [Option.some.injEq, exists_eq_left']
      cases hempty : (splitArgs args).values.isEmpty with
      | true => simp [List.isEmpty_iff.mp hempty]
      | false => simp only [Bool.false_eq_true, if_false, Bool.and_eq_true, all_values_iff]
  all_goals simp [Operand.of]

end Operation

/-- The layer of a deterministic call holds deterministic parts. -/
theorem Operation.determined {operations : Operations} {registry : Registry} {known : Bool}
    {op : Operation} {args : List Expr} (mode : Mode) {operation : String}
    (hop : Keyed.find? operation operations = some op)
    (h : op.determinacy registry
      (Operand.ofLists args (Expr.determinacies operations registry args)) known = true) :
    (op.layer operations mode args).Determined (fun e v => e = .literal v) operations.Deterministic
      registry.Callable (Expr.Fixed operations registry) known := by
  have hf : Operand.Unnamed (Expr.determinacy operations registry) := fun _ _ => rfl
  rw [Expr.determinacies_eq_map] at h
  cases op with
  | form f =>
    exact .form f (forall_splitArgs (P := Expr.Fixed operations registry known) (all_made_iff.mp h)
      fun _ _ h => h).1
  | method m =>
    obtain ⟨hm, h⟩ := Bool.and_eq_true_iff.mp h
    simp only [layer]
    split
    · exact .refused _
    · refine .method ⟨hm, operation, hop⟩ ?_
      simpa [Expr.Fixed] using all_made_iff.mp h
  | loop kind =>
    obtain ⟨selector, body, branch, hparts, hselector, -, hbody, hbranch⟩ :=
      (determinacy_loop_iff hf).mp h
    simp only [layer, hparts]
    refine .loop kind _ hselector hbody ?_
    cases branch with
    | none => rfl
    | some branch => exact hbranch branch rfl
  | context =>
    obtain ⟨value, body, hparts, hnamed, hvalue, hbody⟩ := (determinacy_context_iff hf).mp h
    simp only [layer, hparts]
    exact .context _ hnamed hvalue hbody
  | template =>
    obtain ⟨v, rest, hparts, hcallable, hnamed⟩ := (determinacy_template_iff hf).mp h
    simp only [layer, hparts]
    exact .template rfl hcallable hnamed
  | define | lookup | position => cases h

/-- The layer of a deterministic expression holds deterministic parts, and nothing that depends on
more than the context. -/
theorem Expr.Fixed.determined {operations : Operations} {registry : Registry} {known : Bool}
    (mode : Mode) : ∀ {e : Expr}, e.Fixed operations registry known →
      (e.layer operations mode).Determined (fun e v => e = .literal v) operations.Deterministic
        registry.Callable (Expr.Fixed operations registry) known
  | .literal v, _ => .value v
  | .path p, h => .path p h
  | .named _ value, h => determined mode (e := value) h
  | .call operation args, h => by
    unfold Fixed determinacy at h
    cases hop : Keyed.find? operation operations with
    | some op =>
      rw [hop] at h
      have hget : operations.get operation = .ok op := Operations.get_eq_ok.mpr hop
      rw [layer_call hget]
      exact Operation.determined mode hop h
    | none =>
      rw [hop] at h
      cases h

/-- A deterministic expression has one layer on engines that agree. -/
theorem Expr.Fixed.layer_eq {engine engine' : Engine} (hagree : engine.Agrees engine')
    {registry : Registry} {known : Bool} (mode : Mode) : ∀ {e : Expr},
      e.Fixed engine.operations registry known →
        e.layer engine.operations mode = e.layer engine'.operations mode
  | .literal _, _ | .path _, _ => rfl
  | .named _ value, h => layer_eq hagree mode (e := value) h
  | .call operation args, h => by
    unfold Fixed determinacy at h
    have hop := hagree operation
    generalize hfind : Keyed.find? operation engine.operations = found at h hop
    generalize hfind' : Keyed.find? operation engine'.operations = found' at hop
    rcases hop with @⟨op, op', rfl | ⟨m, m', rfl, rfl, hm, -⟩⟩ | _
    · rw [layer_of_find? hfind, layer_of_find? hfind']
      -- Only a definition would look at the operations.
      cases op with
      | define => cases h
      | _ => rfl
    · exact Bool.noConfusion (hm.symm.trans (Bool.and_eq_true_iff.mp h).1)
    · cases h

/-- A call stays deterministic when more is known: of its context, or of the registered
templates. -/
theorem Operation.determinacy_mono {R S : Registry} (hRS : R.Concedes S) {f g : Expr → Determinacy}
    (hf : Operand.Unnamed f) (hg : Operand.Unnamed g) {known known' : Bool} {op : Operation}
    {args : List Expr} (hargs : ∀ e ∈ args, (f e known = true → g e known' = true) ∧
      (f e true = true → g e true = true))
    (h : op.determinacy R (Operand.ofLists args (args.map f)) known = true) :
    op.determinacy S (Operand.ofLists args (args.map g)) known' = true := by
  obtain ⟨hpositional, hnamed⟩ := forall_splitArgs hargs fun name value hle => by
    rwa [hf name value, hg name value] at hle
  have hvalues (h : ∀ e ∈ (splitArgs args).values.map Prod.snd, f e known = true) :
      ∀ e ∈ (splitArgs args).values.map Prod.snd, g e known' = true := by
    intro e he
    obtain ⟨entry, hentry, rfl⟩ := List.mem_map.mp he
    exact (hnamed entry (List.mem_of_mem_filter hentry)).1 (h _ he)
  have hall (h : ((Operand.ofLists args (args.map f)).all fun o => o.made known) = true) :
      ((Operand.ofLists args (args.map g)).all fun o => o.made known') = true :=
    all_made_iff.mpr fun e he => (hargs e he).1 (all_made_iff.mp h e he)
  cases op with
  | form fm => exact hall h
  | method m =>
    obtain ⟨hm, h⟩ := Bool.and_eq_true_iff.mp h
    exact Bool.and_eq_true_iff.mpr ⟨hm, hall h⟩
  | loop kind =>
    obtain ⟨selector, body, branch, hparts, hs, hv, hb, hbr⟩ := (determinacy_loop_iff hf).mp h
    obtain ⟨hselector, hbody, hbranch⟩ := forall_loopParts? hparts hpositional
    exact (determinacy_loop_iff hg).mpr ⟨selector, body, branch, hparts, hselector.1 hs, hvalues hv,
      hbody.2 hb, fun e he => (hbranch e he).1 (hbr e he)⟩
  | context =>
    obtain ⟨value, body, hparts, hn, hv, hb⟩ := (determinacy_context_iff hf).mp h
    obtain ⟨hvalue, hbody⟩ := forall_contextParts? hparts hpositional
    exact (determinacy_context_iff hg).mpr ⟨value, body, hparts, hvalues hn,
      fun e he => (hvalue e he).1 (hv e he), hbody.2 hb⟩
  | template =>
    obtain ⟨v, rest, hparts, hcallable, hn⟩ := (determinacy_template_iff hf).mp h
    exact (determinacy_template_iff hg).mpr ⟨v, rest, hparts, hRS _ _ hcallable, hvalues hn⟩
  | define | lookup | position => cases h

/-- An expression stays deterministic when more is known. -/
theorem Expr.Fixed.mono {operations : Operations} {R S : Registry} (hRS : R.Concedes S)
    {known known' : Bool} (hknown : known = true → known' = true) (e : Expr) :
    e.Fixed operations R known → e.Fixed operations S known' := by
  suffices h : ∀ known known' : Bool, (known = true → known' = true) →
      e.Fixed operations R known → e.Fixed operations S known' from h known known' hknown
  clear hknown known known'
  induction e using Expr.induction with
  | literal v => exact fun _ _ _ _ => rfl
  | path p => exact fun _ _ hknown h => hknown h
  | named name value ih => exact ih
  | call operation args ih =>
    intro known known' hknown h
    unfold Fixed determinacy at h ⊢
    cases hop : Keyed.find? operation operations with
    | none =>
      rw [hop] at h
      cases h
    | some op =>
      rw [hop] at h
      simp only [determinacies_eq_map] at h ⊢
      refine Operation.determinacy_mono hRS (fun _ _ => rfl) (fun _ _ => rfl) (fun e he => ?_) h
      have hsize := size_le_sizes he
      exact ⟨ih e hsize known known' hknown, ih e hsize true true id⟩

/-! ### Code and entries of expressions -/

namespace Engine

variable {engine : Engine} {R S : Registry} {known : Bool}

/-- Code of an expression: the expression itself, or a fragment that has been built from it. -/
inductive Codes (engine : Engine) (e : Expr) : Code → Prop
  | walked : Codes engine e (.walked e)
  | built {f : Fragment} : engine.Builds e f → Codes engine e (.built f)

/-- The entries that are made of an expression over a registry. -/
inductive EntryOf (engine : Engine) (R : Registry) (e : Expr) : TemplateEntry → Prop
  | interpreted (key : String) :
      EntryOf engine R e (TemplateEntry.interpreted engine.operations R key e)
  | compiled (key : String) {f : Fragment} : engine.Builds e f →
      EntryOf engine R e (TemplateEntry.compiled engine.operations R key e f)
  | defined (key : String) {f : Fragment} : engine.Builds e f →
      EntryOf engine R e (TemplateEntry.defined key f (e.traits engine.operations R))

/-- The registries that come about when every name is registered once. What is known about an entry
may have been found out over an earlier registry. -/
inductive Grown (engine : Engine) : Registry → Prop
  | empty : Grown engine []
  | register {R R₀ : Registry} {e : Expr} {entry : TemplateEntry} : Grown engine R →
      Keyed.contains entry.name R = false → R₀.Within R → engine.EntryOf R₀ e entry →
      Grown engine (R.register entry)

/-- The body of an entry is code of its expression. -/
theorem EntryOf.codes {e : Expr} {entry : TemplateEntry} (h : engine.EntryOf R e entry) :
    engine.Codes e entry.body.code := by
  cases h with
  | interpreted => exact .walked
  | compiled _ hf => exact .built hf
  | defined _ hf => exact .built hf

/-- The traits of an entry are those of its expression. -/
theorem EntryOf.traits {e : Expr} {entry : TemplateEntry} (h : engine.EntryOf R e entry) :
    entry.traits.isDeterministic = e.determinacy engine.operations R true ∧
      entry.traits.isInlinable = e.determinacy engine.operations R false := by
  cases h with
  | interpreted => exact ⟨rfl, rfl⟩
  | compiled => exact ⟨rfl, rfl⟩
  | defined => exact ⟨rfl, rfl⟩

end Engine

/-- The context of a call is the value that it is called with. -/
theorem TemplateEntry.scope_context (entry : TemplateEntry) (s : Scope) (v : Value) :
    (entry.scope s v).context = v := by
  unfold scope
  split
  · rfl
  · rfl

namespace Engine

variable {engine : Engine} {R S : Registry} {known : Bool}

/-- Every entry has been made of an expression, over a registry that has grown since. -/
theorem Grown.entryOf (h : engine.Grown R) {key : String} {entry : TemplateEntry}
    (hfind : Keyed.find? key R = some entry) :
    ∃ R₀ e, R₀.Within R ∧ engine.EntryOf R₀ e entry := by
  induction h with
  | empty => cases hfind
  | @register R R₀ e last _ hnew hR₀ hlast ih =>
    have hwithin := Registry.within_register hnew
    by_cases hkey : key = last.name
    · subst hkey
      unfold Registry.register at hfind
      rw [Keyed.find?_insert_self] at hfind
      obtain rfl := Option.some.inj hfind
      exact ⟨R₀, e, fun key entry h => hwithin _ _ (hR₀ _ _ h), hlast⟩
    · unfold Registry.register at hfind
      rw [Keyed.find?_insert_ne hkey] at hfind
      obtain ⟨R₁, e', hR₁, hentry⟩ := ih hfind
      exact ⟨R₁, e', fun key entry h => hwithin _ _ (hR₁ _ _ h), hentry⟩

/-- The code is that of a deterministic expression. -/
def Fixed (engine : Engine) (R : Registry) (known : Bool) (c : Code) : Prop :=
  ∃ e, engine.Codes e c ∧ e.Fixed engine.operations R known

/-- Code of an expression with a deterministic layer has a deterministic layer too. -/
theorem Codes.determined {callable : Bool → String → Prop} {det : Bool → Expr → Prop} {mode : Mode}
    {e : Expr} {c : Code} (hc : engine.Codes e c)
    (h : (e.layer engine.operations mode).Determined (fun e v => e = .literal v)
      engine.operations.Deterministic callable det known) :
    (c.layer engine.operations mode).Determined (fun c v => c.constant? = some v)
      engine.operations.Deterministic callable (fun known c => ∃ e, engine.Codes e c ∧ det known e)
      known := by
  cases hc with
  | walked =>
    refine h.transfer (.map_right Code.walked _) (fun m m' hm h => hm ▸ h) ?_ ?_
    · rintro _ _ v rfl rfl
      rfl
    · rintro known e _ he rfl
      exact ⟨e, .walked, he⟩
  | @built f hf =>
    have hsame : ∀ f, SameLayers engine (fun _ _ => True) e f →
        ((f.layer mode).map Code.built).Determined (fun c v => c.constant? = some v)
          engine.operations.Deterministic callable
          (fun known c => ∃ e, engine.Codes e c ∧ det known e) known := by
      intro f hsame
      have hrel : ((e.layer engine.operations mode).map id).Rel (building engine fun _ _ => True)
          (fun e c => ∃ f, c = Code.built f ∧ engine.Builds e f) ((f.layer mode).map Code.built) :=
        (hsame mode).transfer id (fun _ _ => id) (fun _ _ _ _ => id) fun _ _ f hf => ⟨f, rfl, hf⟩
      rw [Layer.map_id] at hrel
      refine h.transfer hrel (fun m m' hm h => hm ▸ h) ?_ ?_
      · rintro _ _ v rfl ⟨f, rfl, depth, E, E', -, hbuild⟩
        cases hbuild
        rfl
      · rintro known e _ he ⟨f, rfl, hf⟩
        exact ⟨e, .built hf, he⟩
    cases hf.assembled foldKeeps_true with
    | folded => exact .value _
    | layered hlayers => exact hsame f hlayers
    | @awaiting f₀ operation hlayers =>
      cases mode with
      | sync => exact .refused _
      | awaited => exact hsame f₀ hlayers

/-- The layer of deterministic code holds deterministic parts. -/
theorem Fixed.determined (mode : Mode) {c : Code} (h : engine.Fixed R known c) :
    (c.layer engine.operations mode).Determined (fun c v => c.constant? = some v)
      engine.operations.Deterministic R.Callable (engine.Fixed R) known := by
  obtain ⟨e, hc, he⟩ := h
  exact hc.determined (he.determined mode)

/-- Deterministic code has one layer on engines that agree. -/
theorem Fixed.layer_eq {engine' : Engine} (hagree : engine.Agrees engine') (mode : Mode) {c : Code}
    (h : engine.Fixed R known c) :
    c.layer engine.operations mode = c.layer engine'.operations mode := by
  obtain ⟨e, hc, he⟩ := h
  cases hc with
  | walked => exact congrArg (Layer.map Code.walked) (he.layer_eq hagree mode)
  | built => rfl

/-! ### Evaluating steady code -/

/-- What evaluations of deterministic code keep: the templates that they may call are registered,
and neither marking containers nor calling deterministic methods changes what is kept. -/
structure Keeps (engine : Engine) (R : Registry) (Inv : Effects → Prop) : Prop where
  within : ∀ E, Inv E → R.Within E.templates
  made : ∀ E made, Inv E → Inv { E with made }
  log : ∀ m, engine.operations.Deterministic m → ∀ args E, Inv E →
    Inv { E with log := E.log ++ (m.run args).log }

/-- The simulation of equality between evaluations that keep something. -/
def Keeps.simulation {Inv : Effects → Prop} (h : engine.Keeps R Inv) (hangs : Prop) :
    Simulation where
  marks := .full
  excused _ := False
  hangs := hangs
  lags := False
  rel E F := E = F ∧ Inv E
  hangs_of_lags := False.elim
  settle := by
    rintro E F v w ⟨rfl, hE⟩ hv
    obtain rfl := Value.alike_full.mp hv
    exact ⟨rfl, rfl, h.made _ _ hE⟩

/-- The second code is evaluated with the context around the first one: it is a part of it, or the
body of a template that it calls without values. -/
inductive Inside (engine : Engine) (R : Registry) : Code → Code → Prop
  | part {c part : Code} : part ∈ (c.layer engine.operations .sync).inPlace → Inside engine R c part
  | body {c name : Code} {v : Value} {entry : TemplateEntry} :
      c.layer engine.operations .sync = .template name [] → name.constant? = some v →
      Keyed.find? v.keyText R = some entry → Inside engine R c entry.body.code

/-- What is asked of code where its context is unknown, when it is evaluated on two engines: the
same of the code inside of it, and that sections have bodies that match in place. -/
structure Guards (engine engine' : Engine) (R : Registry) (sim : Simulation) (depth : Nat)
    (Q : Code → Prop) : Prop where
  inside : ∀ c d, Q c → engine.Inside R c d → Q d
  stays : ∀ c params selector body branch, Q c →
    c.layer engine.operations .sync = .loop .section params selector body branch →
    sim.Stays (engine.host depth .sync) (engine'.host depth .sync) selector body body

/-- Two evaluations of deterministic code have the deterministic methods in common, and the
templates that match when they are called. -/
theorem Keeps.common {Inv : Effects → Prop} (hkeeps : engine.Keeps R Inv) {hangs : Prop}
    {host host' : Host} {callable : Bool → Bool → String → Prop}
    (hcalls : ∀ known bare key, callable known bare key → ∃ entry, Keyed.find? key R = some entry ∧
      ∀ s t, (known = true ∨ bare = false → s.context = t.context) →
        (hkeeps.simulation hangs).Paired s t (host.call entry.body) (host'.call entry.body)) :
    (hkeeps.simulation hangs).SteadyCommon host host' callable
      (fun m m' => m = m' ∧ engine.operations.Deterministic m) where
  calls := by
    rintro known bare key hcallable E F ⟨rfl, hE⟩
    obtain ⟨entry, hfind, hpaired⟩ := hcalls known bare key hcallable
    have hget : E.templates.get key = .ok entry := by
      unfold Registry.get
      rw [hkeeps.within E hE key entry hfind]
    rw [hget]
    refine .ok fun s t v w hvw => hpaired _ _ fun h => ?_
    rw [TemplateEntry.scope_context, TemplateEntry.scope_context]
    exact Value.alike_full.mp (hvw h)
  methods := by
    rintro m _ ⟨rfl, hm⟩ args args' hargs
    obtain rfl := Arguments.alike_full.mp hargs
    refine matches_call (.inr (.refl _ _)) ?_
    rintro E _ ⟨rfl, hE⟩
    exact ⟨rfl, hkeeps.log m hm args E hE⟩

/-- Deterministic code matches itself on an engine that agrees, at any scopes where the context is
unknown and at scopes with one context where it is known, as soon as the templates that it calls
do. -/
theorem eval_steady {engine' : Engine} (hagree : engine.Agrees engine') {Inv : Effects → Prop}
    (hkeeps : engine.Keeps R Inv) {hangs : Prop} {depth : Nat} {Q : Code → Prop}
    (hQ : engine.Guards engine' R (hkeeps.simulation hangs) depth Q)
    (hcalls : ∀ known bare key entry, R.Callable bare key → Keyed.find? key R = some entry →
      (known = false → bare = true → Q entry.body.code) → ∀ s t,
        (known = true ∨ bare = false → s.context = t.context) → (hkeeps.simulation hangs).Paired s t
          (engine.runTemplate depth .sync entry.body) (engine'.runTemplate depth .sync entry.body))
    {c : Code} (h : engine.Fixed R known c) (hc : known = false → Q c) {s t : Scope}
    (hst : known = true → s.context = t.context) :
    (hkeeps.simulation hangs).Paired s t (c.eval (engine.host depth .sync))
      (c.eval (engine'.host depth .sync)) := by
  have common : (hkeeps.simulation hangs).SteadyCommon (engine.host depth .sync)
      (engine'.host depth .sync)
      (fun known bare key => R.Callable bare key ∧ ∀ entry, Keyed.find? key R = some entry →
        known = false → bare = true → Q entry.body.code)
      (fun m m' => m = m' ∧ engine.operations.Deterministic m) := by
    refine hkeeps.common ?_
    rintro known bare key ⟨hcallable, hbody⟩
    obtain ⟨entry, hfind, -⟩ := id hcallable
    exact ⟨entry, hfind, hcalls known bare key entry hcallable hfind (hbody entry hfind)⟩
  refine Code.paired_steady
    (M := fun known c d => c = d ∧ engine.Fixed R known c ∧ (known = false → Q c)) common ?_ c known
    c ⟨rfl, h, hc⟩ s t fun hknown => Value.alike_full.mpr (hst hknown)
  rintro known c _ ⟨rfl, hfixed, hc⟩
  have hrel : (c.layer engine.operations .sync).Rel .same Eq (c.layer engine'.operations .sync) :=
    hfixed.layer_eq hagree .sync ▸ .refl _
  refine .inl ((hfixed.determined .sync).steady hrel ?_ (fun _ _ hm h => ⟨h, hm⟩) ?_ ?_ ?_ ?_)
  · intro name named v hl hname hkey
    refine ⟨hkey, fun entry hfind hknown hbare => ?_⟩
    obtain rfl := List.isEmpty_iff.mp hbare
    exact hQ.inside c _ (hc hknown) (.body hl hname hfind)
  · rintro c _ v h rfl
    exact h
  · rintro part hpart _ hpartFixed rfl
    exact ⟨rfl, hpartFixed, fun hknown => hQ.inside c part (hc hknown) (.part hpart)⟩
  · rintro part _ hpartFixed rfl
    exact ⟨rfl, hpartFixed, nofun⟩
  · rintro params selector body branch hl hknown - _ rfl
    exact hQ.stays c params selector body branch (hc hknown) hl

/-- Evaluations of deterministic code leave the registry as it is. -/
theorem keeps_templates (engine : Engine) (R : Registry) :
    engine.Keeps R fun E => E.templates = R where
  within := by
    rintro E rfl key entry h
    exact h
  made _ _ h := h
  log _ _ _ _ h := h

/-- Computations that match while they keep something are equal where it is kept. -/
theorem Keeps.eq {Inv : Effects → Prop} {hangs : Prop} (h : engine.Keeps R Inv) {m n : EvalM Value}
    (hmn : (h.simulation hangs).Matches (Value.Alike .full) m n) {E : Effects} (hE : Inv E) :
    m E = n E := by
  have hjoint := hmn (show (h.simulation hangs).rel E E from ⟨rfl, hE⟩)
  generalize m E = x at hjoint ⊢
  generalize n E = y at hjoint ⊢
  cases hjoint with
  | ok hv hrel =>
    obtain rfl := Value.alike_full.mp hv
    obtain ⟨rfl, -⟩ := hrel
    rfl
  | error hrel =>
    obtain ⟨rfl, -⟩ := hrel
    rfl
  | excused h => exact h.elim
  | hang => rfl
  | lag h => exact h.elim
  | lead h => exact h.elim

/-! ### Sections that evaluate their body in place -/

/-- The second code is the first one, or is inside of code that is in place. -/
def InPlace (engine : Engine) (R : Registry) : Code → Code → Prop :=
  Relation.ReflTransGen (engine.Inside R)

/-- The code has the same outcome in all scopes. -/
def Constant (engine : Engine) (R : Registry) (c : Code) : Prop :=
  ∀ depth s t E, E.templates = R →
    c.eval (engine.host depth .sync) s E = c.eval (engine.host depth .sync) t E

/-- Wherever a section in place has the value `true`, its body has the same outcome in all scopes.
-/
def Guarded (engine : Engine) (R : Registry) (c : Code) : Prop :=
  ∀ d, engine.InPlace R c d → ∀ params selector body branch,
    d.layer engine.operations .sync = .loop .section params selector body branch →
    ∀ depth s t E E', E.templates = R →
      selector.eval (engine.host depth .sync) s E = some (.ok (.bool true), E') →
      body.eval (engine.host depth .sync) s E' = body.eval (engine.host depth .sync) t E'

/-- What is inside of guarded code is guarded. -/
theorem Guarded.of_inside {c d : Code} (h : engine.Guarded R c) (hd : engine.Inside R c d) :
    engine.Guarded R d :=
  fun d' hd' => h d' (Relation.ReflTransGen.head hd hd')

/-- Code is guarded when the code inside of it is, and when its outermost layer is no section that
may be `true`. -/
theorem Guarded.intro {c : Code} (hinside : ∀ d, engine.Inside R c d → engine.Guarded R d)
    (hsection : ∀ params selector body branch,
      c.layer engine.operations .sync = .loop .section params selector body branch →
      ∀ depth s E E', selector.eval (engine.host depth .sync) s E ≠ some (.ok (.bool true), E')) :
    engine.Guarded R c := by
  intro d hd
  rcases Relation.ReflTransGen.cases_head hd with rfl | ⟨c', hc', hd⟩
  · exact fun params selector body branch hl depth s t E E' _ heval =>
      absurd heval (hsection params selector body branch hl depth s E E')
  · exact hinside c' hc' d hd

/-- Guarded code has sections whose bodies match in place. -/
theorem guards_guarded (engine engine' : Engine) (R : Registry) (depth : Nat) :
    engine.Guards engine' R ((engine.keeps_templates R).simulation True) depth
      (engine.Guarded R) where
  inside _ _ h hd := h.of_inside hd
  stays := by
    rintro c params selector body branch hc hl hpaired s t E E' F' ⟨F, rfl, hE⟩ heval ⟨rfl, hE'⟩
    have hsame := hc c Relation.ReflTransGen.refl params selector body branch hl depth s t E E' hE
      heval
    have hjoint := hpaired t t rfl
      (show ((engine.keeps_templates R).simulation True).rel E' E' from ⟨rfl, hE'⟩)
    rwa [hsame]

/-- Deterministic code stays so over registries that concede more. -/
theorem Fixed.mono (hRS : R.Concedes S) {c : Code} (h : engine.Fixed R known c) :
    engine.Fixed S known c := by
  obtain ⟨e, hc, he⟩ := h
  exact ⟨e, hc, he.mono hRS id⟩

/-- The body of an entry is as deterministic as its traits say. -/
theorem EntryOf.fixed {e : Expr} {entry : TemplateEntry} (h : engine.EntryOf R e entry)
    {bare : Bool} (htraits :
      (if bare then entry.traits.isInlinable else entry.traits.isDeterministic) = true) :
    engine.Fixed R (!bare) entry.body.code := by
  obtain ⟨hdeterministic, hinlinable⟩ := h.traits
  refine ⟨e, h.codes, ?_⟩
  cases bare with
  | true => exact hinlinable.symm.trans htraits
  | false => exact hdeterministic.symm.trans htraits

/-- The body of a template that may be called is deterministic, with its context unknown where it
may be called without values. -/
theorem Grown.fixed_body (hR : engine.Grown R) {bare : Bool} {key : String} {entry : TemplateEntry}
    (hcallable : R.Callable bare key) (hfind : Keyed.find? key R = some entry) :
    engine.Fixed R (!bare) entry.body.code := by
  obtain ⟨entry', hfind', htraits⟩ := hcallable
  obtain rfl := Option.some.inj (hfind.symm.trans hfind')
  obtain ⟨R₀, e, hR₀, hentry⟩ := hR.entryOf hfind
  exact (hentry.fixed htraits).mono hR₀.concedes

/-- Deterministic code is so when the context is known. -/
theorem Fixed.with_context {c : Code} (h : engine.Fixed R known c) : engine.Fixed R true c := by
  obtain ⟨e, hc, he⟩ := h
  exact ⟨e, hc, he.mono (fun _ _ h => h) (fun _ => rfl)⟩

/-- What is known about the templates of a registry holds over the registry itself. -/
def Reliable (engine : Engine) (R : Registry) : Prop :=
  ∀ bare key entry, R.Callable bare key → Keyed.find? key R = some entry →
    engine.Fixed R (!bare) entry.body.code

/-- A registry in which every name was registered once is reliable. -/
theorem Grown.reliable (hR : engine.Grown R) : engine.Reliable R :=
  fun _ _ _ hcallable hfind => hR.fixed_body hcallable hfind

/-- Guarded code of a deterministic expression matches itself on an engine that agrees, at any
scopes where the context is unknown and at scopes with one context where it is known. -/
theorem Reliable.paired (hR : engine.Reliable R) {engine' : Engine} (hagree : engine.Agrees engine')
    (depth : Nat) :
    ∀ {known c}, engine.Fixed R known c → (known = false → engine.Guarded R c) → ∀ s t,
      (known = true → s.context = t.context) →
      ((engine.keeps_templates R).simulation True).Paired s t (c.eval (engine.host depth .sync))
        (c.eval (engine'.host depth .sync)) := by
  induction depth with
  | zero =>
    intro known c hfixed hguarded s t hst
    refine eval_steady hagree (engine.keeps_templates R) (engine.guards_guarded engine' R 0) ?_
      hfixed hguarded hst
    exact fun _ _ _ entry _ _ _ s t _ E F _ => .hang trivial
  | succ depth ih =>
    intro known c hfixed hguarded s t hst
    refine eval_steady hagree (engine.keeps_templates R)
      (engine.guards_guarded engine' R (depth + 1)) ?_ hfixed hguarded hst
    intro known bare key entry hcallable hfind hbody s t hst
    have hfixed := hR _ _ _ hcallable hfind
    rw [runTemplate_succ, runTemplate_succ, entry.body.mode_sync]
    -- Where the context of the call is known, the body does not have to be guarded.
    cases known with
    | true => exact ih hfixed.with_context nofun s t fun _ => hst (.inl rfl)
    | false =>
      refine ih hfixed (fun hbare => hbody rfl (by simpa using hbare)) s t fun hbare => ?_
      exact hst (.inr (by simpa using hbare))

/-- What is kept is kept by a computation that matches itself. -/
theorem Keeps.outcome {Inv : Effects → Prop} {hangs : Prop} (h : engine.Keeps R Inv)
    {m : EvalM Value} (hm : (h.simulation hangs).Matches (Value.Alike .full) m m) {E E' : Effects}
    {r : Except Error Value} (hE : Inv E) (hrun : m E = some (r, E')) : Inv E' := by
  have hjoint := hm (show (h.simulation hangs).rel E E from ⟨rfl, hE⟩)
  rw [hrun] at hjoint
  cases hjoint with
  | ok _ hrel => exact hrel.2
  | error hrel => exact hrel.2
  | excused h => exact h.elim

/-- Folding leaves the registry as it is. -/
theorem Reliable.foldKeeps (hR : engine.Reliable R) :
    FoldKeeps engine fun _ E => E.templates = R := by
  rintro depth e E E' r rfl h
  rcases tryFold_cases h with ⟨-, rfl⟩ | ⟨hdet, -, result, after, heval, -, rfl⟩
  · rfl
  · have hfixed : engine.Fixed E.templates true (.walked e) :=
      Fixed.with_context ⟨e, .walked, hdet⟩
    have hpaired := hR.paired (.refl engine) depth hfixed nofun
      (Scope.root .null) (Scope.root .null) fun _ => rfl
    have hkept : after.templates = E.templates :=
      (engine.keeps_templates E.templates).outcome hpaired (E := foldEffects E) rfl heval
    exact hkept

/-- Folding leaves such a registry as it is. -/
theorem Grown.foldKeeps (hR : engine.Grown R) : FoldKeeps engine fun _ E => E.templates = R :=
  hR.reliable.foldKeeps

/-- To register an expression under a free name is to register every name once. -/
theorem Grown.registerExpr {depth : Nat} {name : String} {e : Expr} {interpreted : Bool}
    {E E' : Effects} (hE : engine.Grown E.templates)
    (hname : Keyed.contains name E.templates = false)
    (h : engine.registerExpr depth name e interpreted E = some (.ok (), E')) :
    engine.Grown E'.templates := by
  obtain ⟨entry, E₁, hentry, h⟩ := EvalM.bind_eq_ok h
  obtain ⟨templates, E₂, ht, h⟩ := EvalM.bind_eq_ok h
  cases ht
  cases h
  unfold buildEntry at hentry
  cases interpreted with
  | true =>
    cases hentry
    exact .register hE hname (fun _ _ h => h) (.interpreted name)
  | false =>
    obtain ⟨f, E₃, hf, hentry⟩ := EvalM.bind_eq_ok hentry
    obtain ⟨templates, E₄, ht, hentry⟩ := EvalM.bind_eq_ok hentry
    cases ht
    cases hentry
    have hkept := (build_assembled hE.foldKeeps depth e rfl hf).2
    rw [hkept]
    exact .register hE hname (fun _ _ h => h) (.compiled name ⟨depth, E, _, trivial, hf⟩)

/-- What is inside of deterministic code is deterministic. -/
theorem Fixed.inside (hR : engine.Grown R) {c d : Code} (h : engine.Fixed R false c)
    (hd : engine.Inside R c d) : engine.Fixed R false d := by
  have hlayer := h.determined .sync
  cases hd with
  | body hl hname hfind =>
    rw [hl] at hlayer
    cases hlayer with
    | template hname' hkey _ =>
      obtain rfl := Option.some.inj (hname.symm.trans hname')
      exact hR.fixed_body hkey hfind
  | part hpart =>
    generalize c.layer engine.operations .sync = l at hlayer hpart
    cases hlayer with
    | value | path | refused => exact absurd hpart List.not_mem_nil
    | form f hps => exact hps d hpart
    | loop kind params hselector hbody hbranch =>
      simp only [Layer.inPlace, List.mem_cons, List.not_mem_nil, or_false] at hpart
      rcases hpart with rfl | rfl
      · exact hselector
      · exact hbranch
    | context params hnamed hv hbody =>
      rcases List.mem_append.mp hpart with hpart | hpart
      · exact hnamed d hpart
      · exact hv d (Option.mem_toList.mp hpart)
    | @template name named v hname hkey hnamed =>
      rcases List.mem_cons.mp hpart with rfl | hpart
      · refine ⟨.literal v, ?_, rfl⟩
        unfold Code.constant? at hname
        split at hname
        · cases hname
          exact .walked
        · cases hname
          exact .built ⟨0, {}, {}, trivial, rfl⟩
        · cases hname
      · exact hnamed d hpart
    | method hm hargs => exact hargs d hpart

/-- A section whose value is `true` is its body, where the selector has ended. -/
theorem eval_section_of_true (host : Host) {c selector body branch : Code} {params : List String}
    (hl : c.layer host.operations host.mode = .loop .section params selector body branch)
    {s : Scope} {E E' : Effects} (h : selector.eval host s E = some (.ok (.bool true), E')) :
    c.eval host s E = body.eval host s E' := by
  rw [Code.eval_eq_run, hl]
  show (selector.eval host s >>= _) E = _
  rw [EvalM.bind_apply, h]
  rfl

/-- Code is guarded when all code in place has the same outcome in all scopes. -/
theorem guarded_of_constant {c : Code}
    (h : ∀ d, engine.InPlace R c d → engine.Constant R d) : engine.Guarded R c := by
  intro d hd params selector body branch hl depth s t E E' hE heval
  have hselector : engine.InPlace R c selector := by
    refine hd.tail (.part ?_)
    rw [hl]
    exact List.mem_cons_self
  have heval' : selector.eval (engine.host depth .sync) t E = some (.ok (.bool true), E') := by
    rw [← h selector hselector depth s t E hE]
    exact heval
  rw [← eval_section_of_true (engine.host depth .sync) hl heval,
    ← eval_section_of_true (engine.host depth .sync) hl heval']
  exact h d hd depth s t E hE

/-- A deterministic expression has the same result in all scopes, with the same lines, when it is
guarded: where a section in place has the value `true`, its body depends on no scope. It is guarded
exactly when all code in place has the same outcome in all scopes. The result is the same on every
engine that agrees, so that methods need to be functions of their arguments only where they are
called deterministic. -/
theorem deterministic_constant (engine : Engine) {R : Registry} (hR : engine.Grown R) {e : Expr}
    (he : e.isDeterministic engine.operations R = true) :
    (engine.Guarded R (.walked e) → ∀ engine', engine.Agrees engine' → ∀ depth s t E,
        E.templates = R → engine.evalExpr depth .sync e s E = engine'.evalExpr depth .sync e t E) ∧
      (engine.Guarded R (.walked e) ↔
        ∀ d, engine.InPlace R (.walked e) d → engine.Constant R d) := by
  have hfixed : engine.Fixed R false (.walked e) := ⟨e, .walked, he⟩
  have hconstant : ∀ {c}, engine.Fixed R false c → engine.Guarded R c →
      ∀ engine', engine.Agrees engine' → ∀ depth s t E, E.templates = R →
        c.eval (engine.host depth .sync) s E = c.eval (engine'.host depth .sync) t E :=
    fun hfixed hguarded _ hagree depth s t E hE => (engine.keeps_templates R).eq
      (hR.reliable.paired hagree depth hfixed (fun _ => hguarded) s t nofun) hE
  refine ⟨hconstant hfixed, fun hguarded d hd => ?_, guarded_of_constant⟩
  suffices h : engine.Fixed R false d ∧ engine.Guarded R d from
    hconstant h.1 h.2 engine (.refl engine)
  induction hd with
  | refl => exact ⟨hfixed, hguarded⟩
  | tail _ hinside ih => exact ⟨ih.1.inside hR hinside, ih.2.of_inside hinside⟩

/-- A section over a number and a template that is called without values: both give the same in all
scopes, whatever a method answers that is not deterministic. -/
theorem deterministic_constant_partial :
    let engine : Engine := ({} : Engine).addMethod (Method.constant "now" (.int 1))
    let engine' : Engine := ({} : Engine).addMethod (Method.constant "now" (.int 2))
    let R : Registry := Registry.register []
      (TemplateEntry.interpreted engine.operations [] "P" (.call "cat" [.text "a"]))
    let e : Expr := .call "cat"
      [.call "section" [.literal (.int 1), .path .this], .call "partial" [.text "P"]]
    ∀ s t, engine.evalExpr 2 .sync e s { templates := R } =
      engine'.evalExpr 2 .sync e t { templates := R } := by
  intro engine engine' R e s t
  have hregister : engine.registerExpr 0 "P" (.call "cat" [.text "a"]) true {} =
      some (.ok (), { templates := R }) := rfl
  have hR : engine.Grown R := Grown.registerExpr .empty rfl hregister
  have hleaf : ∀ v, engine.Guarded R (.walked (.literal v)) := by
    refine fun v => .intro (fun d hd => ?_) nofun
    cases hd with
    | part hpart => exact absurd hpart List.not_mem_nil
    | body hl => cases hl
  have hbody : engine.Guarded R (.walked (.call "cat" [.text "a"])) := by
    refine .intro (fun d hd => ?_) nofun
    cases hd with
    | part hpart =>
      obtain rfl := List.mem_singleton.mp hpart
      exact hleaf _
    | body hl => cases hl
  have hguarded : engine.Guarded R (.walked e) := by
    refine .intro (fun d hd => ?_) nofun
    cases hd with
    | body hl => cases hl
    | part hpart =>
      rcases List.mem_cons.mp hpart with rfl | hpart
      · refine .intro (fun d hd => ?_) fun params selector body branch hl depth s E E' heval => ?_
        · cases hd with
          | body hl => cases hl
          | part hpart =>
            rcases List.mem_cons.mp hpart with rfl | hpart
            · exact hleaf _
            · obtain rfl := List.mem_singleton.mp hpart
              exact hleaf _
        · cases hl
          cases heval
      · obtain rfl := List.mem_singleton.mp hpart
        refine .intro (fun d hd => ?_) nofun
        cases hd with
        | part hpart =>
          obtain rfl := List.mem_singleton.mp hpart
          exact hleaf _
        | body hl hname hfind =>
          cases hl
          cases hname
          cases hfind
          exact hbody
  have hagree : engine.Agrees engine' := .addMethod (.refl {}) rfl rfl rfl
  exact (deterministic_constant engine hR rfl).1 hguarded engine' hagree 2 s t
    { templates := R } rfl

/-- The body of a section over `true` is evaluated in the scope around it: such a section is called
deterministic, although its value depends on the context. -/
theorem section_of_true_differs :
    let engine : Engine := {}
    let e : Expr := .call "section" [.literal (.bool true), .path ⟨["x"]⟩]
    e.isDeterministic engine.operations [] = true ∧
      engine.evalExpr 0 .sync e (Scope.root (.object (.outer 0) [("x", .int 1)])) {} ≠
        engine.evalExpr 0 .sync e (Scope.root .null) {} := by
  refine ⟨rfl, fun h => ?_⟩
  cases h

end Engine

end Stencil
