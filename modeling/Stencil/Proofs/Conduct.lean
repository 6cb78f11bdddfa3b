import Stencil.Engine
import Stencil.Proofs.Building

/-!
# Conduct

A property of computations that holds of results, and of one computation after the other as soon as
it holds of both, holds of a whole evaluation as soon as it holds of its steps. The steps are those
that look at the registered templates, that call a method or a template, and that fail.

## Main results

* `Code.conduct`: what holds of the steps of code holds of its evaluation.
* `Conduct.keeping`: an invariant of the templates, with a bound on the failures.
* `Engine.Preserves.eval`: what is kept layer by layer, and by the templates that are called, is
  kept by whole evaluations.
-/

namespace Stencil

namespace EvalM

/-- The template of a name. -/
def lookup (key : String) : EvalM TemplateEntry :=
  templates >>= fun R => ofExcept (R.get key)

/-- Defines a template under a name. -/
def define (entry : EntryMaker) (key : String) : EvalM Unit :=
  templates >>= fun R => setTemplates (R.define (entry R key))

/-- What a template lookup does. -/
theorem lookup_apply (key : String) (E : Effects) :
    lookup key E = some (E.templates.get key, E) := rfl

/-- What a definition does. -/
theorem define_apply (entry : EntryMaker) (key : String) (E : Effects) :
    define entry key E =
      some (.ok (), { E with templates := E.templates.define (entry E.templates key) }) := rfl

end EvalM

/-- A property of computations that passes from computations to one after the other. -/
structure Conduct where
  Holds : {α : Type} → EvalM α → Prop
  pure : ∀ {α : Type} (a : α), Holds (Pure.pure a : EvalM α)
  bind : ∀ {α β : Type} {m : EvalM α} {k : α → EvalM β},
    Holds m → (∀ a, Holds (k a)) → Holds (m >>= k)
  settle : ∀ v, Holds (EvalM.settle v)

namespace Conduct

variable {C : Conduct} {s : Scope}

/-! ### Operations -/

section Forms

variable {parts : List Lazy}

/-- The conduct of the parts passes to their concatenation. -/
theorem evalConcat (h : ∀ part ∈ parts, C.Holds (part s)) (out : String) :
    C.Holds (Form.evalConcat out parts s) := by
  induction parts generalizing out with
  | nil => exact C.pure out
  | cons part parts ih =>
    obtain ⟨hpart, hparts⟩ := List.forall_mem_cons.mp h
    exact C.bind hpart fun v => ih hparts _

/-- The conduct of the parts passes to the choice between them. -/
theorem evalChoose (h : ∀ part ∈ parts, C.Holds (part s)) : C.Holds (Form.evalChoose parts s) := by
  induction parts using Form.evalChoose.induct with
  | case1 => exact C.pure _
  | case2 otherwise => exact h otherwise List.mem_cons_self
  | case3 condition body rest ih =>
    obtain ⟨hcondition, hbody, hrest⟩ := by simpa only [List.forall_mem_cons] using h
    refine C.bind hcondition fun v => ?_
    split
    · exact hbody
    · exact ih hrest

/-- The conduct of the parts passes to the negated choice. -/
theorem evalUnless (h : ∀ part ∈ parts, C.Holds (part s)) : C.Holds (Form.evalUnless parts s) := by
  match parts with
  | [] | [_] => exact C.pure _
  | condition :: body :: rest =>
    obtain ⟨hcondition, hbody, hrest⟩ := by simpa only [List.forall_mem_cons] using h
    refine C.bind hcondition fun v => ?_
    split
    · cases rest with
      | nil => exact C.pure _
      | cons otherwise rest => exact hrest otherwise List.mem_cons_self
    · exact hbody

/-- The conduct of the parts passes to the first of them that is there. -/
theorem evalDefault (h : ∀ part ∈ parts, C.Holds (part s)) :
    C.Holds (Form.evalDefault parts s) := by
  induction parts with
  | nil => exact C.pure _
  | cons part parts ih =>
    obtain ⟨hpart, hparts⟩ := List.forall_mem_cons.mp h
    refine C.bind hpart fun v => ?_
    split
    · exact ih hparts
    · exact C.pure v

/-- The conduct of the parts passes to their conjunction and their disjunction. -/
theorem evalUntil (stop : Bool) (h : ∀ part ∈ parts, C.Holds (part s)) :
    C.Holds (Form.evalUntil stop parts s) := by
  induction parts with
  | nil => exact C.pure _
  | cons part parts ih =>
    obtain ⟨hpart, hparts⟩ := List.forall_mem_cons.mp h
    cases parts with
    | nil => exact hpart
    | cons next rest =>
      refine C.bind hpart fun v => ?_
      split
      · exact C.pure v
      · exact ih hparts

/-- What holds of the parts of a form holds of the form. -/
theorem form (f : Form) (h : ∀ part ∈ parts, C.Holds (part s)) : C.Holds (f.eval parts s) := by
  match f with
  | .concat => exact C.bind (evalConcat h "") fun out => C.pure _
  | .choose => exact evalChoose h
  | .unless => exact evalUnless h
  | .default => exact evalDefault h
  | .all => exact evalUntil false h
  | .any => exact evalUntil true h

end Forms

/-- The conduct of the body passes to the rounds of a loop. -/
theorem roundsFrom {body : Lazy} (h : ∀ s, C.Holds (body s)) (out : String) (scopes : List Scope) :
    C.Holds (Stencil.roundsFrom body out scopes) := by
  induction scopes generalizing out with
  | nil => exact C.pure out
  | cons s scopes ih => exact C.bind (h s) fun v => ih _

/-- What holds of the parts of a loop, in all scopes, holds of the loop. -/
theorem loop (style : LoopStyle) {selector body branch : Lazy} (hselector : C.Holds (selector s))
    (hbody : ∀ s, C.Holds (body s)) (hbranch : C.Holds (branch s)) :
    C.Holds (style.eval selector body branch s) := by
  refine C.bind hselector fun source => ?_
  split
  · exact hbranch
  · split
    · unfold wholeValue
      split
      · exact hbody _
      · exact hbody _
    · rw [style.run_eq]
      refine C.bind ?_ fun text => ?_
      · split
        · exact C.pure _
        · exact C.bind (roundsFrom hbody "" _) fun text => C.pure _
      · cases text with
        | some text => exact C.pure _
        | none => exact hbranch

/-- The conduct of named parts passes to their values. -/
theorem evalNamed {named : List (String × Lazy)}
    (h : ∀ part ∈ named.map Prod.snd, C.Holds (part s)) : C.Holds (Stencil.evalNamed named s) := by
  induction named with
  | nil => exact C.pure _
  | cons entry named ih =>
    obtain ⟨hentry, hnamed⟩ := by simpa only [List.map_cons, List.forall_mem_cons] using h
    exact C.bind hentry fun v => C.bind (ih hnamed) fun vs => C.pure _

/-- What holds of the parts of a block, in all scopes, holds of the block. -/
theorem context {params : List String} {framed : Bool} {named : List (String × Lazy)}
    {value : Option Lazy} {body : Lazy} (hnamed : ∀ part ∈ named.map Prod.snd, C.Holds (part s))
    (hvalue : ∀ part, value = some part → C.Holds (part s)) (hbody : ∀ s, C.Holds (body s)) :
    C.Holds (evalContext params framed named value body s) := by
  refine C.bind (evalNamed hnamed) fun vs => C.bind ?_ fun v => ?_
  · cases value with
    | none => exact C.pure _
    | some value => exact C.bind (hvalue value rfl) fun v => C.pure _
  · generalize newContext vs v = new
    obtain ⟨context, replaces⟩ := new
    refine C.bind (C.settle _) fun context => ?_
    show C.Holds (if _ then _ else _)
    split
    · exact hbody _
    · exact hbody _

/-- Whatever a look-up finds can be called. -/
def Finds (C : Conduct) (call : TemplateBody → Lazy) : Prop :=
  ∀ key (k : TemplateEntry → EvalM Value),
    (∀ entry, (∀ s, C.Holds (call entry.body s)) → C.Holds (k entry)) →
      C.Holds (EvalM.lookup key >>= k)

/-- What holds of a name, of named values and of whatever is found holds of a call. -/
theorem template {call : TemplateBody → Lazy} {name : Lazy} {named : List (String × Lazy)}
    (hfinds : C.Finds call) (hname : C.Holds (name s))
    (hnamed : ∀ part ∈ named.map Prod.snd, C.Holds (part s)) :
    C.Holds (evalTemplate call name named s) := by
  refine C.bind hname fun v => ?_
  have hlookup := hfinds v.keyText (fun entry => do
      let values ← Stencil.evalNamed named s
      let context ← if values.isEmpty then Pure.pure s.context
        else EvalM.settle (calledContext values s.context)
      call entry.body (if entry.capturesScope then s.enter context else s.rebase context)) ?_
  · unfold EvalM.lookup at hlookup
    rwa [bind_assoc] at hlookup
  · intro entry hcall
    refine C.bind (evalNamed hnamed) fun vs => ?_
    simp only
    split
    · exact C.bind (C.pure _) fun context => hcall _
    · exact C.bind (C.settle _) fun context => hcall _

/-- What holds of a name and of defining a template holds of a definition. -/
theorem definition {name : Lazy} {entry : EntryMaker} (hname : C.Holds (name s))
    (hentry : ∀ key, C.Holds (EvalM.define entry key)) :
    C.Holds (evalDefinition name entry s) := by
  refine C.bind hname fun v => ?_
  have hdefine := C.bind (hentry v.keyText) fun _ => C.pure (Value.string "")
  unfold EvalM.define at hdefine
  rwa [bind_assoc] at hdefine

/-- The conduct of the arguments passes to the evaluation of a built call's arguments. -/
theorem arguments {args : List (Option String × Lazy)}
    (h : ∀ part ∈ args.map Prod.snd, C.Holds (part s)) (done : Arguments) :
    C.Holds (evalBuiltArguments args done s) := by
  induction args generalizing done with
  | nil => exact C.pure done
  | cons arg args ih =>
    obtain ⟨harg, hargs⟩ := by simpa only [List.map_cons, List.forall_mem_cons] using h
    exact C.bind harg fun v => ih hargs _

/-- What holds of logging and of the answers of a method holds of its calls. -/
theorem call {m : Method} (args : Arguments) (hlog : ∀ lines, C.Holds (EvalM.logLines lines))
    (hanswer : C.Holds (EvalM.ofExcept (m.run args).outcome)) : C.Holds (m.call args) :=
  C.bind (hlog _) fun _ => C.bind hanswer fun v => C.settle v

/-! ### Layers -/

/-- The property holds of what a layer does beside evaluating its parts. -/
structure Allows {α : Type} (C : Conduct) (callee : TemplateBody → Lazy) (l : Layer α) : Prop where
  refused : ∀ err, l = .refused err → C.Holds (throw err : EvalM Value)
  method : ∀ m parts, l = .method m parts → ∀ args, C.Holds (m.call args)
  template : ∀ name named, l = .template name named → C.Finds callee
  define : ∀ name entry, l = .define name entry → ∀ key, C.Holds (EvalM.define entry key)

/-- What holds of the parts holds of their evaluations. -/
theorem mem_mapValues {α κ : Type} {eval : α → Lazy} {named : List (κ × α)}
    (h : ∀ part ∈ named.map Prod.snd, ∀ s, C.Holds (eval part s)) (s : Scope) :
    ∀ part ∈ (Keyed.mapValues eval named).map Prod.snd, C.Holds (part s) := by
  simp only [Keyed.mapValues, List.map_map, List.mem_map, Function.comp_apply] at h ⊢
  rintro _ ⟨entry, hentry, rfl⟩
  exact h entry.2 ⟨entry, hentry, rfl⟩ s

/-- What holds of the parts of a layer and of what it does beside holds of the layer. -/
theorem run {α : Type} {callee : TemplateBody → Lazy} {eval : α → Lazy} {l : Layer α}
    (hl : C.Allows callee l) (hparts : ∀ part ∈ l.parts, ∀ s, C.Holds (eval part s)) (s : Scope) :
    C.Holds (l.run callee eval s) := by
  cases l with
  | value | path | lookup | position => exact C.pure _
  | form f parts =>
    refine form f fun part hpart => ?_
    obtain ⟨a, ha, rfl⟩ := List.mem_map.mp hpart
    exact hparts a ha s
  | loop kind params selector body branch =>
    exact loop _ (hparts _ (by simp [Layer.parts]) s) (hparts _ (by simp [Layer.parts]))
      (hparts _ (by simp [Layer.parts]) s)
  | context params named value body =>
    refine context (mem_mapValues (fun part hpart => hparts part ?_) s) ?_
      (hparts _ (by simp [Layer.parts]))
    · exact List.mem_append_left _ (List.mem_append_left _ hpart)
    · intro part hpart
      obtain ⟨value, rfl, rfl⟩ := Option.map_eq_some_iff.mp hpart
      exact hparts value (by simp [Layer.parts]) s
  | template name named =>
    exact template (hl.template _ _ rfl) (hparts _ (by simp [Layer.parts]) s)
      (mem_mapValues (fun part hpart => hparts part (List.mem_cons_of_mem _ hpart)) s)
  | define name entry =>
    exact definition (hparts _ (by simp [Layer.parts]) s) (hl.define _ _ rfl)
  | method m args => exact C.bind (arguments (mem_mapValues hparts s) {}) (hl.method _ _ rfl)
  | refused err => exact hl.refused err rfl

end Conduct

/-- What holds of the steps of code, layer by layer, holds of its evaluation. -/
theorem Code.conduct {C : Conduct} {host : Host} {M : Code → Prop}
    (step : ∀ c, M c → C.Allows host.call (c.layer host.operations host.mode) ∧
      ∀ part ∈ (c.layer host.operations host.mode).parts, M part) :
    ∀ c, M c → ∀ s, C.Holds (c.eval host s) := by
  intro c
  induction c using induction host.operations host.mode with
  | step c ih =>
    intro hc s
    obtain ⟨hallows, hparts⟩ := step c hc
    rw [eval_eq_run]
    exact Conduct.run hallows (fun part hpart => ih part hpart (hparts part hpart)) s

namespace Conduct

variable {C : Conduct}

/-- What holds of running the body of a template holds of rendering the template. -/
theorem render {engine : Engine} {depth : Nat} {template : Template}
    (h : ∀ s, C.Holds (engine.runTemplate depth template.mode template.body s)) (data : Value) :
    C.Holds (template.render engine depth data) :=
  C.bind (C.settle data) fun _ => C.bind (h _) fun v => C.pure v.output

/-! ### Invariants -/

/-- An invariant of the templates that computations keep, with a bound on their failures. -/
def keeping (Inv : Registry → Prop) (allowed : Error → Prop) : Conduct where
  Holds m := ∀ ⦃E r E'⦄, Inv E.templates → m E = some (r, E') →
    Inv E'.templates ∧ ∀ err, r = .error err → allowed err
  pure := by
    rintro α a E r E' hE h
    cases h
    exact ⟨hE, nofun⟩
  bind := by
    intro α β m k hm hk E r E' hE h
    rw [EvalM.bind_apply] at h
    rcases hmE : m E with _ | ⟨err | a, E₁⟩ <;> rw [hmE] at h
    · cases h
    · cases h
      obtain ⟨hE₁, herr⟩ := hm hE hmE
      exact ⟨hE₁, fun err' h => herr err' (by cases h; rfl)⟩
    · exact hk a (hm hE hmE).1 h
  settle := by
    rintro v E r E' hE h
    cases h
    exact ⟨hE, nofun⟩

variable {Inv : Registry → Prop} {allowed : Error → Prop}

/-- To fail with an allowed error keeps everything. -/
theorem keeping_throw {α : Type} {err : Error} (h : allowed err) :
    (keeping Inv allowed).Holds (throw err : EvalM α) := by
  rintro E r E' hE hr
  cases hr
  refine ⟨hE, ?_⟩
  rintro _ ⟨⟩
  exact h

/-- A result fails as allowed when its failure is allowed. -/
theorem keeping_ofExcept {α : Type} {result : Except Error α}
    (h : ∀ err, result = .error err → allowed err) :
    (keeping Inv allowed).Holds (EvalM.ofExcept result) := by
  rintro E r E' hE hr
  cases hr
  exact ⟨hE, h⟩

/-- To look at the registry keeps it. -/
theorem keeping_templates : (keeping Inv allowed).Holds EvalM.templates := by
  rintro E r E' hE hr
  cases hr
  exact ⟨hE, nofun⟩

/-- A method whose failures are allowed fails as allowed. -/
theorem keeping_call {m : Method} {args : Arguments}
    (h : ∀ err, (m.run args).outcome = .error err → allowed err) :
    (keeping Inv allowed).Holds (m.call args) := by
  refine call args (fun lines => ?_) (keeping_ofExcept h)
  rintro E r E' hE hr
  cases hr
  exact ⟨hE, nofun⟩

/-- What a look-up finds is in a registry of which the invariant holds. -/
theorem keeping_finds {callee : TemplateBody → Lazy}
    (hmissing : ∀ name, allowed (.templateNotFound name))
    (hcallee : ∀ R key entry, Inv R → Keyed.find? key R = some entry →
      ∀ s, (keeping Inv allowed).Holds (callee entry.body s)) :
    (keeping Inv allowed).Finds callee := by
  intro key k hk E r E' hE h
  rw [EvalM.bind_apply, EvalM.lookup_apply] at h
  unfold Registry.get at h
  cases hfind : Keyed.find? key E.templates with
  | none =>
    rw [hfind] at h
    cases h
    refine ⟨hE, ?_⟩
    rintro _ ⟨⟩
    exact hmissing key
  | some entry =>
    rw [hfind] at h
    exact hk entry (hcallee _ key entry hE hfind) hE h

/-- A definition keeps what every new entry keeps. -/
theorem keeping_define {entry : EntryMaker}
    (h : ∀ R key, Inv R → Inv (R.define (entry R key))) (key : String) :
    (keeping Inv allowed).Holds (EvalM.define entry key) := by
  rintro E r E' hE hr
  cases hr
  exact ⟨h _ _ hE, nofun⟩

/-- What evaluations without awaiting keep is kept by folding. -/
theorem keeping_tryFold (engine : Engine) (depth : Nat) (e : Expr)
    (heval : (keeping Inv fun _ => True).Holds
      (engine.evalExpr depth .sync e (Scope.root .null))) :
    (keeping Inv allowed).Holds (engine.tryFold depth e) := by
  intro E r E' hE h
  rcases Engine.tryFold_cases h with ⟨rfl, rfl⟩ | ⟨-, -, result, after, hrun, rfl, rfl⟩
  · exact ⟨hE, nofun⟩
  · exact ⟨(@heval (Engine.foldEffects E) _ _ hE hrun).1, nofun⟩

end Conduct

/-- What an engine does with some code, layer by layer: the code keeps entries with a property, and
fails as it is allowed to. -/
structure Engine.Preserves (engine : Engine) (P : TemplateEntry → Prop) (allowed : Error → Prop)
    (M : Mode → Code → Prop) : Prop where
  parts : ∀ {mode c}, M mode c → ∀ part ∈ (c.layer engine.operations mode).parts, M mode part
  refused : ∀ {mode c err}, M mode c → c.layer engine.operations mode = .refused err → allowed err
  method : ∀ {mode c m parts}, M mode c → c.layer engine.operations mode = .method m parts →
    ∀ args err, (m.run args).outcome = .error err → allowed err
  missing : ∀ name, allowed (.templateNotFound name)
  template : ∀ {mode c name named}, M mode c →
    c.layer engine.operations mode = .template name named →
    ∀ entry, P entry → M (entry.body.mode mode) entry.body.code
  define : ∀ {mode c name entry}, M mode c → c.layer engine.operations mode = .define name entry →
    ∀ R key, P (entry R key)

namespace Engine.Preserves

variable {engine : Engine} {P : TemplateEntry → Prop} {allowed : Error → Prop}
  {M : Mode → Code → Prop}

open Conduct (keeping)

/-- What is kept layer by layer is kept where the templates that are called keep it. -/
theorem eval_of_callee (h : engine.Preserves P allowed M) {depth : Nat} {mode : Mode}
    (hcallee : ∀ body, M (body.mode mode) body.code →
      ∀ s, (keeping (Registry.Every P) allowed).Holds (engine.runTemplate depth mode body s))
    {c : Code} (hc : M mode c) (s : Scope) :
    (keeping (Registry.Every P) allowed).Holds (c.eval (engine.host depth mode) s) := by
  refine Code.conduct (M := M mode) (fun c hc => ⟨?_, h.parts hc⟩) c hc s
  exact
    { refused := fun err hl => Conduct.keeping_throw (h.refused hc hl)
      method := fun m _ hl args => Conduct.keeping_call fun err => h.method hc hl args err
      template := fun name named hl => Conduct.keeping_finds h.missing fun R key entry hR hfind =>
        hcallee entry.body (h.template hc hl entry (hR key entry hfind))
      define := fun name entry hl => Conduct.keeping_define fun R key hR =>
        hR.define (h.define hc hl R key) }

/-- To run a template keeps what is kept layer by layer. -/
theorem runTemplate (h : engine.Preserves P allowed M) (depth : Nat) {mode : Mode}
    {body : TemplateBody} (hbody : M (body.mode mode) body.code) (s : Scope) :
    (keeping (Registry.Every P) allowed).Holds (engine.runTemplate depth mode body s) := by
  induction depth generalizing mode body s with
  | zero => exact fun _ _ _ _ h => nomatch h
  | succ depth ih =>
    rw [runTemplate_succ]
    exact h.eval_of_callee (fun body hbody s => ih hbody s) hbody s

/-- What is kept layer by layer, and by the templates that are called, is kept by whole
evaluations. -/
theorem eval (h : engine.Preserves P allowed M) (depth : Nat) {mode : Mode} {c : Code}
    (hc : M mode c) (s : Scope) :
    (keeping (Registry.Every P) allowed).Holds (c.eval (engine.host depth mode) s) :=
  h.eval_of_callee (fun _ hbody s => h.runTemplate depth hbody s) hc s

end Engine.Preserves

end Stencil
