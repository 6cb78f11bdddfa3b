import Stencil.Proofs.Watching

/-!
# Builds with and without folding

Deterministic code has an outcome as soon as calls may nest as deep as there are templates, because
a template that is called so has been registered earlier than what calls it. So to try to fold a
call ends, and it changes neither templates nor lines. A call that is folded could have been built
as well: it is deterministic, and what is deterministic has the arguments that its operations ask
for.

## Main results

* `Engine.Fixed.outcome`: deterministic code has an outcome.
* `Engine.build_along`: an expression is built with folding exactly when it is built without, and
  fails in the same way otherwise.
-/

namespace Stencil

open Simulation (Matches)

/-- To register under a free name adds one entry. -/
theorem Registry.length_register {R : Registry} {entry : TemplateEntry}
    (h : Keyed.contains entry.name R = false) : (R.register entry).length = R.length + 1 := by
  have hkeys := congrArg List.length (Keyed.keys_insert entry.name entry R)
  rw [h] at hkeys
  unfold register
  simpa [Keyed.keys] using hkeys

namespace Engine

variable {engine : Engine} {R S : Registry}

/-! ### Deterministic code finishes -/

/-- Quiet evaluations of deterministic code leave the templates and the lines as they are. -/
theorem keeps_quiet (hquiet : engine.MethodsQuiet) (hRS : R.Within S) (log : List String) :
    engine.Keeps R fun E => E.templates = S ∧ E.log = log where
  within := by
    rintro E ⟨rfl, -⟩
    exact hRS
  made _ _ h := h
  log := by
    rintro m hm args E ⟨hE, hlog⟩
    refine ⟨hE, ?_⟩
    rw [hquiet m hm args, List.append_nil, hlog]

/-- Where the context is always known nothing is asked of sections. -/
theorem guards_none (sim : Simulation) (depth : Nat) :
    engine.Guards engine R sim depth fun _ => False where
  inside _ _ h _ := h
  stays _ _ _ _ _ h _ := h.elim

/-- Deterministic code has an outcome as soon as its calls may nest as deep as there are templates:
each calls only templates that have been registered before it. -/
theorem Grown.finishes (hquiet : engine.MethodsQuiet) (hR : engine.Grown R) :
    ∀ {S} (hRS : R.Within S) (log : List String) {depth : Nat}, R.length ≤ depth →
      ∀ {c}, engine.Fixed R true c → ∀ s t, s.context = t.context →
      ((keeps_quiet hquiet hRS log).simulation False).Paired s t
        (c.eval (engine.host depth .sync)) (c.eval (engine.host depth .sync)) := by
  induction hR with
  | empty =>
    intro S hRS log depth _ c hc s t hst
    refine eval_steady (.refl engine) (keeps_quiet hquiet hRS log) (guards_none _ depth) ?_ hc nofun
      fun _ => hst
    intro known bare key entry _ hfind
    cases hfind
  | @register R R₀ e last hR hnew hR₀ hlast ih =>
    intro S hRS log depth hdepth c hc s t hst
    have hwithin := Registry.within_register hnew
    rw [Registry.length_register hnew] at hdepth
    obtain ⟨depth, rfl⟩ := Nat.exists_eq_add_one_of_ne_zero (Nat.ne_zero_of_lt hdepth)
    refine eval_steady (.refl engine) (keeps_quiet hquiet hRS log) (guards_none _ _) ?_ hc nofun
      fun _ => hst
    intro known bare key entry hcallable hfind hbody s t hst
    rw [runTemplate_succ, entry.body.mode_sync]
    have hfixed : engine.Fixed R true entry.body.code := by
      by_cases hkey : key = last.name
      · have hentry : entry = last := by
          rw [hkey, Registry.register, Keyed.find?_insert_self] at hfind
          exact (Option.some.inj hfind).symm
        obtain ⟨entry', hfind', htraits⟩ := hcallable
        obtain rfl := Option.some.inj (hfind.symm.trans hfind')
        subst hentry
        exact ((hlast.fixed htraits).mono hR₀.concedes).with_context
      · have hold : Keyed.find? key R = some entry := by
          rwa [Registry.register, Keyed.find?_insert_ne hkey] at hfind
        obtain ⟨entry', hfind', htraits⟩ := hcallable
        obtain rfl := Option.some.inj (hfind.symm.trans hfind')
        exact (hR.fixed_body ⟨entry, hold, htraits⟩ hold).with_context
    have hcontext : s.context = t.context := by
      cases known with
      | true => exact hst (.inl rfl)
      | false =>
        cases bare with
        | true => exact (hbody rfl rfl).elim
        | false => exact hst (.inr rfl)
    exact ih (fun key entry h => hRS key entry (hwithin key entry h)) log
      (Nat.le_of_succ_le_succ hdepth) hfixed s t hcontext

/-- Deterministic code has an outcome, and leaves the templates and the lines as they are. -/
theorem Fixed.outcome (hquiet : engine.MethodsQuiet) {E : Effects} (hE : engine.Grown E.templates)
    {depth : Nat} (hdepth : E.templates.length ≤ depth) {known : Bool} {c : Code}
    (hc : engine.Fixed E.templates known c) (s : Scope) :
    ∃ r E', c.eval (engine.host depth .sync) s E = some (r, E') ∧ E'.templates = E.templates ∧
      E'.log = E.log := by
  have hkeeps := keeps_quiet hquiet (fun _ _ h => h : E.templates.Within E.templates) E.log
  have hpaired := hE.finishes hquiet (fun _ _ h => h) E.log hdepth hc.with_context s s rfl
  have hjoint := hpaired (show (hkeeps.simulation False).rel E E from ⟨rfl, rfl, rfl⟩)
  generalize c.eval (engine.host depth .sync) s E = o at hjoint ⊢
  cases hjoint with
  | ok _ hrel => exact ⟨_, _, rfl, hrel.2⟩
  | error hrel => exact ⟨_, _, rfl, hrel.2⟩
  | excused h => exact h.elim
  | hang h => exact h.elim

/-- Folding has an outcome: a value for a deterministic expression, or none. -/
theorem tryFold_outcome (hquiet : engine.MethodsQuiet) {E : Effects} (hE : engine.Grown E.templates)
    {depth : Nat} (hdepth : E.templates.length ≤ depth) (e : Expr) :
    ∃ r E', engine.tryFold depth e E = some (.ok r, E') ∧ E'.templates = E.templates ∧
      E'.log = E.log ∧ (r.isSome → e.Fixed engine.operations E.templates false) := by
  unfold tryFold
  simp only [EvalM.bind_apply, EvalM.templates]
  split
  · next hfold =>
    simp only [Bool.and_eq_true] at hfold
    have hfixed : engine.Fixed E.templates false (.walked e) := ⟨e, .walked, hfold.1.2⟩
    obtain ⟨r, after, heval, htemplates, hlog⟩ :=
      Fixed.outcome (E := foldEffects E) hquiet hE hdepth hfixed (Scope.root .null)
    have hrun : engine.evalExpr depth .sync e (Scope.root .null) (foldEffects E) =
      some (r, after) := heval
    unfold foldEffects at hrun
    simp only [EvalM.attempt, EvalM.keeping, hrun]
    cases r with
    | ok v => exact ⟨_, _, rfl, htemplates, hlog, fun _ => hfold.1.2⟩
    | error err => exact ⟨_, _, rfl, htemplates, hlog, by simp⟩
  · exact ⟨none, E, rfl, rfl, rfl, by simp⟩

/-! ### Builds that go along -/

/-- The simulation between computations that leave their templates as they are, and log the same. -/
def alongside (R S : Registry) : Simulation where
  marks := .bare
  excused _ := False
  hangs := False
  lags := False
  rel E F := E.templates = R ∧ F.templates = S ∧ E.log = F.log
  hangs_of_lags := id
  settle := by
    rintro E F v w hrel hv
    refine ⟨?_, hrel⟩
    have hv : v.unmarked = w.unmarked := hv
    show (v.marked E.run E.made).1.unmarked = (w.marked F.run F.made).1.unmarked
    rw [Value.unmarked_marked, Value.unmarked_marked, hv]

/-- Two computations go along: both have a result or the same failure. -/
def Along {α β : Type} (R S : Registry) (m : EvalM α) (n : EvalM β) : Prop :=
  (alongside R S).Matches (fun _ _ => True) m n

namespace Along

variable {α β γ δ : Type}

/-- Two values come out alongside each other. -/
theorem pure (a : α) (b : β) : Along R S (Pure.pure a) (Pure.pure b) :=
  Matches.pure trivial

/-- The same failure comes out on both sides. -/
theorem throw (err : Error) : Along R S (MonadExcept.throw err : EvalM α)
    (MonadExcept.throw err : EvalM β) :=
  Matches.throw err

/-- Steps that go alongside each other do so one after the other. -/
theorem bind {m : EvalM α} {n : EvalM β} {k : α → EvalM γ} {l : β → EvalM δ} (h : Along R S m n)
    (hkl : ∀ a b, Along R S (k a) (l b)) : Along R S (m >>= k) (n >>= l) :=
  Matches.bind h fun a b _ => hkl a b

/-- What goes along with a result goes along with any other result. -/
theorem of_pure {a : α} {n : EvalM β} (h : Along R S (Pure.pure a) n) (c : γ) :
    Along R S (Pure.pure c) n := by
  rw [← bind_pure n]
  exact h.bind (k := fun _ => Pure.pure c) fun _ b => pure c b

end Along

end Engine

/-- A relation of computations that passes from two of them to what they go on to. -/
structure Parallel where
  Holds : {α β : Type} → EvalM α → EvalM β → Prop
  pure : ∀ {α β : Type} (a : α) (b : β), Holds (Pure.pure a) (Pure.pure b)
  throw : ∀ {α β : Type} (err : Error),
    Holds (MonadExcept.throw err : EvalM α) (MonadExcept.throw err : EvalM β)
  bind : ∀ {α β γ δ : Type} {m : EvalM α} {n : EvalM β} {k : α → EvalM γ} {l : β → EvalM δ},
    Holds m n → (∀ a b, Holds (k a) (l b)) → Holds (m >>= k) (n >>= l)
  templates : Holds EvalM.templates EvalM.templates

/-- Computations that go along. -/
def Engine.along (R S : Registry) : Parallel where
  Holds := Engine.Along R S
  pure := .pure
  throw := .throw
  bind := .bind
  templates := fun _ _ hrel => .ok trivial hrel

namespace Parallel

variable (C : Parallel) {m n : Expr → EvalM Fragment}

/-- Lists are built alongside each other when their members are. -/
theorem buildAll {es : List Expr} (h : ∀ e ∈ es, C.Holds (m e) (n e)) :
    C.Holds (buildAll (es.map m)) (Stencil.buildAll (es.map n)) := by
  induction es with
  | nil => exact C.pure [] []
  | cons e es ih =>
    refine C.bind (h e List.mem_cons_self) fun f g => ?_
    exact C.bind (ih fun e he => h e (List.mem_cons_of_mem _ he)) fun _ _ => C.pure _ _

/-- Named lists are built alongside each other when their members are. -/
theorem buildKeyed {κ : Type} {es : List (κ × Expr)}
    (h : ∀ e ∈ es.map Prod.snd, C.Holds (m e) (n e)) :
    C.Holds (buildKeyed (Keyed.mapValues m es)) (Stencil.buildKeyed (Keyed.mapValues n es)) := by
  induction es with
  | nil => exact C.pure [] []
  | cons e es ih =>
    obtain ⟨he, hes⟩ := List.forall_mem_cons.mp h
    exact C.bind he fun _ _ => C.bind (ih hes) fun _ _ => C.pure _ _

/-- What need not be there is built alongside when it is there. -/
theorem buildOptional {e : Option Expr} (h : ∀ c ∈ e.toList, C.Holds (m c) (n c)) :
    C.Holds (buildOptional (e.map m)) (Stencil.buildOptional (e.map n)) := by
  cases e with
  | none => exact C.pure none none
  | some e => exact C.bind (h e List.mem_cons_self) fun _ _ => C.pure _ _

/-- The builds of a layer go in parallel when those of its parts do. -/
theorem layer {l : Layer Expr} (h : ∀ e ∈ l.parts, C.Holds (m e) (n e)) :
    C.Holds (l.build m) (l.build n) := by
  cases l with
  | value | path | lookup | position => exact C.pure _ _
  | form f parts => exact C.bind (C.buildAll h) fun _ _ => C.pure _ _
  | loop kind params selector body branch =>
    simp only [Layer.parts, List.forall_mem_cons] at h
    obtain ⟨hselector, hbody, hbranch, -⟩ := h
    exact C.bind hselector fun _ _ => C.bind hbody fun _ _ => C.bind hbranch fun _ _ => C.pure _ _
  | context params named v body =>
    simp only [Layer.parts, List.forall_mem_append, List.forall_mem_singleton] at h
    obtain ⟨⟨hnamed, hv⟩, hbody⟩ := h
    exact C.bind (C.buildKeyed hnamed) fun _ _ => C.bind (C.buildOptional hv) fun _ _ =>
      C.bind hbody fun _ _ => C.pure _ _
  | template name named =>
    obtain ⟨hname, hnamed⟩ := List.forall_mem_cons.mp h
    exact C.bind hname fun _ _ => C.bind (C.buildKeyed hnamed) fun _ _ => C.pure _ _
  | method m args => exact C.bind (C.buildKeyed h) fun _ _ => C.pure _ _
  | define | refused => exact C.throw _

end Parallel

/-- The builds of a call go in parallel when those of the parts of its layer do, and that of the
body when it is a definition. -/
theorem Operation.build_parallel (C : Parallel) {operations : Operations} {op : Operation}
    {args : List Expr} {m n : Expr → EvalM Fragment} (hm : Operand.Unnamed m)
    (hn : Operand.Unnamed n) (hm' : m (.text "") = pure (.const (.string "")))
    (hn' : n (.text "") = pure (.const (.string "")))
    (hparts : ∀ e ∈ (op.layer operations .awaited args).parts, C.Holds (m e) (n e))
    (hbody : op = .define → ∀ e ∈ (splitArgs args).positional, C.Holds (m e) (n e)) :
    C.Holds (op.build operations (Operand.ofLists args (args.map m)))
      (op.build operations (Operand.ofLists args (args.map n))) := by
  by_cases hdefine : op = .define
  · subst hdefine
    rw [build_define hm, build_define hn]
    cases hparts : definitionParts? (splitArgs args).positional with
    | none => exact C.throw _
    | some parts =>
      obtain ⟨name, body⟩ := parts
      obtain ⟨hname, hbody⟩ := forall_definitionParts? hparts (hbody rfl)
      refine C.bind hname fun _ _ => C.bind hbody fun _ _ => ?_
      exact C.bind C.templates fun _ _ => C.pure _ _
  · rw [build_eq_layer hm hm' hdefine, build_eq_layer hn hn' hdefine]
    exact C.layer hparts

/-- A build that is always the same. -/
def builtEmpty (_ : Expr) : EvalM Fragment :=
  pure (.const (.string ""))

/-- Where every part builds, a list of parts builds. -/
theorem buildAll_builtEmpty (es : List Expr) :
    ∃ fs, buildAll (es.map builtEmpty) = (pure fs : EvalM (List Fragment)) := by
  induction es with
  | nil => exact ⟨[], rfl⟩
  | cons e es ih =>
    obtain ⟨fs, hfs⟩ := ih
    refine ⟨.const (.string "") :: fs, ?_⟩
    rw [List.map_cons, buildAll, hfs]
    rfl

/-- Where every part builds, a named list of parts builds. -/
theorem buildKeyed_builtEmpty {κ : Type} (es : List (κ × Expr)) :
    ∃ fs, buildKeyed (Keyed.mapValues builtEmpty es) = (pure fs : EvalM (List (κ × Fragment))) := by
  induction es with
  | nil => exact ⟨[], rfl⟩
  | cons e es ih =>
    obtain ⟨fs, hfs⟩ := ih
    refine ⟨(e.1, .const (.string "")) :: fs, ?_⟩
    rw [Keyed.mapValues_cons, buildKeyed, hfs]
    rfl

/-- A deterministic call has the arguments that its operation asks for, so that it is built as soon
as these are. -/
theorem Operation.build_builtEmpty {R : Registry} {operations : Operations} {op : Operation}
    {args : List Expr} {known : Bool} {f : Expr → Determinacy} (hf : Operand.Unnamed f)
    (h : op.determinacy R (Operand.ofLists args (args.map f)) known = true) :
    ∃ g, op.build operations (Operand.ofLists args (args.map builtEmpty)) = pure g := by
  have hempty : Operand.Unnamed builtEmpty := fun _ _ => rfl
  obtain ⟨named, hnamed⟩ := buildKeyed_builtEmpty (splitArgs args).values
  cases op with
  | form fm =>
    simp only [build, Operand.positional_map hempty]
    obtain ⟨fs, hfs⟩ := buildAll_builtEmpty (splitArgs args).positional
    exact ⟨.form fm fs, by rw [hfs]; rfl⟩
  | method m =>
    simp only [build, Operand.made_map]
    obtain ⟨fs, hfs⟩ := buildKeyed_builtEmpty (args.map fun e => (e.named?.map Prod.fst, e))
    exact ⟨.method m fs, by rw [hfs]; rfl⟩
  | loop kind =>
    obtain ⟨selector, body, branch, hparts, -⟩ := (determinacy_loop_iff hf).mp h
    simp only [build, Operand.positional_map hempty, loopParts?_map, hparts, Option.map_some]
    cases branch <;> exact ⟨_, rfl⟩
  | context =>
    obtain ⟨value, body, hparts, -⟩ := (determinacy_context_iff hf).mp h
    simp only [build, Operand.positional_map hempty, Operand.values_map hempty, contextParts?_map,
      hparts, Option.map_some, hnamed]
    cases value <;> exact ⟨_, rfl⟩
  | template =>
    obtain ⟨v, rest, hparts, -⟩ := (determinacy_template_iff hf).mp h
    simp only [build, Operand.positional_map hempty, Operand.values_map hempty, hparts,
      List.map_cons, hnamed]
    exact ⟨_, rfl⟩
  | define | lookup | position => cases h

namespace Engine

variable {engine : Engine} {R S : Registry}

/-- The engine that leaves every expression to run time. -/
def unfolding (engine : Engine) : Engine :=
  { engine with settings := { engine.settings with fold := false } }

/-- Without folding a call is built from its arguments. -/
theorem unfolding_build_call {operation : String} {args : List Expr} {op : Operation} (depth : Nat)
    (h : engine.operations.get operation = .ok op) :
    engine.unfolding.build depth (.call operation args) =
      (do
        let f ← op.build engine.operations
          (Operand.ofLists args (args.map (engine.unfolding.build depth)))
        return engine.markAwaiting operation args f) :=
  build_call_of_fold rfl depth h

/-- Without folding the same expression is built in parallel, whatever depth calls may nest. -/
theorem unfolding_build_parallel (C : Parallel) (depth depth' : Nat) (e : Expr) :
    C.Holds (engine.unfolding.build depth e) (engine.unfolding.build depth' e) := by
  induction e using Expr.induction with
  | literal v => exact C.pure _ _
  | path p => exact C.pure _ _
  | named name value ih => exact ih
  | call operation args ih =>
    cases hget : engine.operations.get operation with
    | error err =>
      have hthrow : ∀ depth, engine.unfolding.build depth (.call operation args) = throw err := by
        intro depth
        have hget' : engine.unfolding.operations.get operation = .error err := hget
        rw [build, hget']
        rfl
      rw [hthrow, hthrow]
      exact C.throw err
    | ok op =>
      have hsize : ∀ e ∈ (op.layer engine.operations .awaited args).parts,
          e.size ≤ Expr.sizes args :=
        op.forall_parts (fun e => Expr.size_le_sizes) (fun _ _ h => h) (Nat.zero_le _)
      have hpositional := (forall_splitArgs (P := fun e => e.size ≤ Expr.sizes args)
        (fun e => Expr.size_le_sizes) fun _ _ h => h).1
      rw [unfolding_build_call depth hget, unfolding_build_call depth' hget]
      exact C.bind (op.build_parallel C (fun _ _ => rfl) (fun _ _ => rfl) rfl rfl
        (fun e he => ih e (hsize e he)) fun _ e he => ih e (hpositional e he)) fun _ _ => C.pure _ _

/-- Deterministic expressions are built without folding. -/
theorem unfolding_build_ok (depth : Nat) (e : Expr) : ∀ {known},
    e.Fixed engine.operations S known →
      Along R S (builtEmpty e) (engine.unfolding.build depth e) := by
  induction e using Expr.induction with
  | literal v => exact fun _ => .pure _ _
  | path p => exact fun _ => .pure _ _
  | named name value ih => exact ih
  | call operation args ih =>
    intro known h
    unfold Expr.Fixed Expr.determinacy at h
    cases hop : Keyed.find? operation engine.operations with
    | none =>
      rw [hop] at h
      cases h
    | some op =>
      rw [hop] at h
      have hget : engine.operations.get operation = .ok op := Operations.get_eq_ok.mpr hop
      have hlayer := Operation.determined .awaited hop h
      have hsize : ∀ e ∈ (op.layer engine.operations .awaited args).parts,
          e.size ≤ Expr.sizes args :=
        op.forall_parts (fun e => Expr.size_le_sizes) (fun _ _ h => h) (Nat.zero_le _)
      have hparts : ∀ e ∈ (op.layer engine.operations .awaited args).parts,
          Along R S (builtEmpty e) (engine.unfolding.build depth e) := by
        intro e he
        rcases hlayer.exists_det he with ⟨v, rfl⟩ | ⟨known, hfixed⟩
        · exact .pure _ _
        · exact ih e (hsize e he) hfixed
      have hdefine : op ≠ .define := by
        rintro rfl
        cases h
      have halong := op.build_parallel (along R S) (fun _ _ => rfl) (fun _ _ => rfl) rfl rfl hparts
        fun h => absurd h hdefine
      simp only [Expr.determinacies_eq_map] at h
      obtain ⟨g, hg⟩ : ∃ g, op.build engine.operations
          (Operand.ofLists args (args.map builtEmpty)) = pure g :=
        op.build_builtEmpty (fun _ _ => rfl) h
      rw [hg] at halong
      rw [unfolding_build_call depth hget]
      exact halong.bind (k := fun _ => builtEmpty (.text "")) fun _ _ => .pure _ _

/-- An expression is built with folding exactly when it is built without, and fails in the same way
otherwise. Neither build changes the templates, and both log the same. -/
theorem build_along (hquiet : engine.MethodsQuiet) (hR : engine.Grown R) (hRS : R.Concedes S)
    {depth : Nat} (hdepth : R.length ≤ depth) (e : Expr) :
    Along R S (engine.build depth e) (engine.unfolding.build depth e) := by
  induction e using Expr.induction with
  | literal v => exact .pure _ _
  | path p => exact .pure _ _
  | named name value ih => exact ih
  | call operation args ih =>
    cases hget : engine.operations.get operation with
    | error err =>
      have hthrow : ∀ engine' : Engine, engine'.operations = engine.operations →
          engine'.build depth (.call operation args) = throw err := by
        intro engine' h
        rw [build, h, hget]
        rfl
      rw [hthrow engine rfl, hthrow engine.unfolding rfl]
      exact .throw err
    | ok op =>
      rw [engine.build_call depth hget, unfolding_build_call depth hget]
      intro E F hrel
      obtain ⟨r, E', htry, htemplates, hlog, hfixed⟩ :=
        tryFold_outcome hquiet (hrel.1 ▸ hR) (hrel.1 ▸ hdepth) (.call operation args)
      have hrel' : (alongside R S).rel E' F :=
        ⟨htemplates.trans hrel.1, hrel.2.1, hlog.trans hrel.2.2⟩
      rw [EvalM.bind_apply, htry]
      cases r with
      | some v =>
        have hdet := (hfixed rfl).mono (hrel.1 ▸ hRS) id
        have halong := unfolding_build_ok (R := R) depth _ hdet
        rw [unfolding_build_call depth hget] at halong
        exact halong.of_pure (Fragment.const v) hrel'
      | none =>
        have hsize : ∀ e ∈ (op.layer engine.operations .awaited args).parts,
            e.size ≤ Expr.sizes args :=
          op.forall_parts (fun e => Expr.size_le_sizes) (fun _ _ h => h) (Nat.zero_le _)
        have hpositional := (forall_splitArgs (P := fun e => e.size ≤ Expr.sizes args)
          (fun e => Expr.size_le_sizes) fun _ _ h => h).1
        refine Along.bind (op.build_parallel (along R S) (fun _ _ => rfl) (fun _ _ => rfl) rfl rfl
          (fun e he => ih e (hsize e he)) fun _ e he => ih e (hpositional e he))
          (fun f g => .pure _ _) hrel'

end Engine

end Stencil
