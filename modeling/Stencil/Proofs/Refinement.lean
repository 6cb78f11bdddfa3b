import Stencil.Engine
import Stencil.Proofs.Building

/-!
# Fragments refine their expressions

Without folding, a fragment that has been built evaluates as the walk through its expression does:
to the same value or failure, with the same lines, and to a registry with the same names. The two
registries need not be the same. What a template defines on the way is kept as a fragment by the one
and as an expression by the other, so the entries under one name are twins: they run the same code,
or a fragment and the expression that it was built from.

When everything is awaited, a body that was stored as never awaited is still run without awaiting.
If it calls a template all the same, its twins are met in a mode that they have not been built for,
so that such bodies have to be ruled out.

## Main results

* `Engine.runTemplate_twins`: the bodies of twins match.
* `Engine.build_refines_walk`: fragments refine the expressions that they are built from.
* `Engine.unsettled_registry_differs`: with a body that is stored as never awaited and calls a
  template, they need not.
-/

namespace Stencil

open Simulation (Matches exact)

/-- No call in the expression calls a template. -/
def Expr.CallsNoTemplate (operations : Operations) (e : Expr) : Prop :=
  ∀ c ∈ e.calls, Keyed.find? c.1 operations ≠ some .template

/-- The bodies that are stored as never awaited call no template. -/
def Registry.Settled (operations : Operations) (registry : Registry) : Prop :=
  ∀ entry ∈ registry, ∀ e, entry.2.body = .interpreted e true → e.CallsNoTemplate operations

namespace Expr

variable {operations : Operations}

/-- What calls no template has no part that calls one. -/
theorem CallsNoTemplate.of_mem_parts {mode : Mode} {e part : Expr}
    (h : e.CallsNoTemplate operations) (hpart : part ∈ (e.layer operations mode).parts) :
    part.CallsNoTemplate operations :=
  fun c hc => h c (calls_of_mem_parts hpart c hc)

/-- What is never awaited calls no template, since templates may be. -/
theorem callsNoTemplate_of_isSync {e : Expr} (h : e.isSync operations = true) :
    e.CallsNoTemplate operations := by
  intro c hc hop
  exact Bool.noConfusion (not_sought (Option.isNone_iff_eq_none.mp h) hc hop)

/-- The layer of what is never awaited is the same in both modes. -/
theorem layer_of_isSync (mode : Mode) : ∀ {e : Expr}, e.isSync operations = true →
    e.layer operations .sync = e.layer operations mode
  | .literal _, _ | .path _, _ => rfl
  | .named _ value, h => layer_of_isSync mode (e := value) h
  | .call operation args, h => by
    unfold layer Operations.get
    cases hop : Keyed.find? operation operations with
    | none => rfl
    | some op =>
      cases op with
      | method m =>
        have hsync := not_sought (Option.isNone_iff_eq_none.mp h) List.mem_cons_self hop
        have hm : m.isAsync = false := by simpa [Operation.isSync] using hsync
        simp [Operation.layer, hm]
      | _ => rfl

end Expr

/-- What is never awaited is evaluated alike in both modes. -/
theorem Engine.eval_of_isSync (engine : Engine) (depth : Nat) (mode : Mode) {e : Expr}
    (h : e.isSync engine.operations = true) :
    (Code.walked e).eval (engine.host depth .sync) =
      (Code.walked e).eval (engine.host depth mode) := by
  let pairing : Pairing := { templates := False, methods := Eq, entries := Eq }
  have common : exact.Common (engine.host depth .sync).call (engine.host depth mode).call pairing :=
    { calls := False.elim
      methods := by
        rintro m _ rfl args args' hargs
        obtain rfl := Arguments.alike_full.mp hargs
        exact (Matches.exact_refl _).mono fun _ _ => congrArg _
      entries := by
        rintro entry _ rfl E F rfl key
        rfl }
  funext s
  refine Fragment.eq_of_exact_paired (Code.paired
    (M := fun c d => c = d ∧ ∃ e, c = .walked e ∧ e.isSync engine.operations = true) common ?_
    _ _ ⟨rfl, e, rfl, h⟩ s s rfl)
  rintro _ _ ⟨rfl, e, rfl, h⟩
  refine .inl ?_
  have hlayer : (e.layer engine.operations .sync).Rel pairing Eq
      (e.layer engine.operations mode) := by
    rw [Expr.layer_of_isSync mode h]
    refine .self _ (fun name named hl => ?_) (fun _ _ _ => rfl) fun _ _ _ => rfl
    obtain ⟨c, hc, hop⟩ := Expr.exists_call hl rfl
    exact Expr.callsNoTemplate_of_isSync h c hc hop
  refine hlayer.transfer id (fun _ _ => id) (fun _ _ _ _ => id) ?_
  rintro part hpart _ rfl
  refine ⟨rfl, part, rfl, ?_⟩
  unfold Expr.isSync at h ⊢
  rw [Expr.firstOperation?_of_mem_parts (Option.isNone_iff_eq_none.mp h) hpart]
  rfl

namespace Engine

/-! ### Twins -/

/-- Two entries run the same code, or the second one runs a fragment that has been built from the
expression of the first one. In each case they run it in the mode that it is fit for. -/
inductive Twin (engine : Engine) (mode : Mode) (x y : TemplateEntry) : Prop
  | same : x.body = y.body → x.capturesScope = y.capturesScope →
    (∀ e, mode = .awaited → x.body = .interpreted e true → e.CallsNoTemplate engine.operations) →
    Twin engine mode x y
  | built {e : Expr} {f : Fragment} : x.body = .interpreted e (e.isSync engine.operations) →
    x.capturesScope = e.capturesScope engine.operations → y.body = .compiled f →
    y.capturesScope = f.touchesFrames → Builds engine e f →
    (mode = .sync → e.firstAsync? engine.operations = none) → Twin engine mode x y

/-- Two registries have the same names, and twins under each of them. -/
def Twins (engine : Engine) (mode : Mode) : Registry → Registry → Prop :=
  Registry.Related (Twin engine mode)

variable {engine : Engine} {mode : Mode} {R S : Registry}

/-- A settled registry has itself for a twin, and so has any registry where nothing is awaited. -/
theorem Twins.refl (h : mode = .awaited → R.Settled engine.operations) : Twins engine mode R R :=
  List.forall₂_same.mpr fun entry hentry =>
    ⟨rfl, .same rfl rfl fun e hmode => h hmode entry hentry e⟩

/-! ### Effects that agree -/

/-- Effects agree in everything but that their registries hold twins. -/
structure Agree (engine : Engine) (mode : Mode) (E F : Effects) : Prop where
  templates : Twins engine mode E.templates F.templates
  log : E.log = F.log
  run : E.run = F.run
  made : E.made = F.made

/-- The simulation between the walk through expressions and the evaluation of their fragments: one
has an outcome exactly when the other does. -/
def refinement (engine : Engine) (mode : Mode) : Simulation where
  marks := .full
  excused _ := False
  hangs := True
  lags := False
  rel := Agree engine mode
  hangs_of_lags := False.elim
  settle := by
    rintro E F v w hagree hv
    obtain rfl := Value.alike_full.mp hv
    rw [← hagree.run, ← hagree.made]
    exact ⟨rfl, hagree.templates, hagree.log, rfl, rfl⟩

/-- What layers have in common: the methods, and definitions that make twins. Templates may be
called or not. -/
def refining (engine : Engine) (mode : Mode) (templates : Prop) : Pairing where
  templates := templates
  methods := Eq
  entries := fun entry entry' => ∀ R S key, Twin engine mode (entry R key) (entry' S key) ∧
    (entry R key).name = key ∧ (entry' S key).name = key

/-- What layers have in common is matched by the simulation, when the templates are that are called.
-/
theorem refinement_common {templates : Prop} {call call' : TemplateBody → Lazy}
    (hcalls : templates → ∀ x y, Twin engine mode x y → ∀ s v,
      (refinement engine mode).Paired (x.scope s v) (y.scope s v) (call x.body) (call' y.body)) :
    (refinement engine mode).Common call call' (refining engine mode templates) where
  calls := by
    intro htemplates E F hagree key
    refine (Registry.Related.get hagree.templates key).imp fun x y hxy s t v w hst hvw => ?_
    obtain rfl := Scope.alike_full.mp hst
    obtain rfl := Value.alike_full.mp hvw
    exact hcalls htemplates x y hxy s v
  methods := by
    rintro m _ rfl args args' hargs
    obtain rfl := Arguments.alike_full.mp hargs
    refine matches_call (.inr (.refl _ _)) fun E F hagree => ?_
    exact ⟨hagree.templates, congrArg (· ++ _) hagree.log, hagree.run, hagree.made⟩
  entries := by
    intro entry entry' hentry E F hagree key
    obtain ⟨htwin, hname, hname'⟩ := hentry E.templates F.templates key
    exact ⟨Registry.Related.define hagree.templates (hname.trans hname'.symm) htwin, hagree.log,
      hagree.run, hagree.made⟩

/-! ### Layers of twins -/

/-- What is walked of an expression over one registry is a twin of what is walked of it over
another. -/
theorem twin_interpreted (R S : Registry) (key : String) (e : Expr) :
    Twin engine mode (TemplateEntry.interpreted engine.operations R key e)
      (TemplateEntry.interpreted engine.operations S key e) := by
  refine .same rfl rfl fun e' _ hbody => ?_
  obtain ⟨rfl, hsync⟩ : e = e' ∧ e.isSync engine.operations = true := by
    simpa [TemplateEntry.interpreted] using hbody
  exact Expr.callsNoTemplate_of_isSync hsync

/-- An expression that is walked twice makes twins. -/
theorem layer_walked_self {templates : Prop} (e : Expr) (mode' : Mode)
    (h : ¬templates → e.CallsNoTemplate engine.operations) :
    (e.layer engine.operations mode').Rel (refining engine mode templates) Eq
      (e.layer engine.operations mode') := by
  refine .self _ (fun name named hl => ?_) (fun _ _ _ => rfl) fun name entry hl R S key => ?_
  · by_contra htemplates
    obtain ⟨c, hc, hop⟩ := Expr.exists_call hl rfl
    exact h htemplates c hc hop
  · obtain ⟨body, -, rfl⟩ := Expr.exists_define hl
    exact ⟨twin_interpreted R S key body, rfl, rfl⟩

/-- A fragment that is run twice makes twins. -/
theorem layer_built_self (f : Fragment) :
    (f.layer mode).Rel (refining engine mode True) Eq (f.layer mode) := by
  refine .self _ (fun _ _ _ => trivial) (fun _ _ _ => rfl) fun name entry hl R S key => ?_
  obtain ⟨body, traits, rfl⟩ := Fragment.exists_define hl
  exact ⟨.same rfl rfl fun _ _ => nofun, rfl, rfl⟩

/-- Without folding no value is folded. -/
theorem not_foldsIn (hfold : engine.settings.fold = false) {Inv : Nat → Effects → Prop} {e : Expr}
    {v : Value} : ¬FoldsIn engine Inv e v := by
  rintro ⟨depth, E, E', -, h⟩
  obtain ⟨templates, E₁, -, h⟩ := EvalM.bind_eq_ok h
  rw [hfold] at h
  cases h

/-- The layers of an expression and of the fragment that has been built from it make twins. -/
theorem layer_builds (hfold : engine.settings.fold = false) {e : Expr} {f : Fragment}
    (hf : Builds engine e f)
    (hmode : mode = .sync → e.firstAsync? engine.operations = none) :
    (e.layer engine.operations mode).Rel (refining engine mode True)
      (fun part g => Builds engine part g ∧
        (mode = .sync → part.firstAsync? engine.operations = none)) (f.layer mode) := by
  have hsame : ∀ f, SameLayers engine (fun _ _ => True) e f →
      (e.layer engine.operations mode).Rel (refining engine mode True)
        (fun part g => Builds engine part g ∧
          (mode = .sync → part.firstAsync? engine.operations = none)) (f.layer mode) := by
    intro f hsame
    refine (hsame mode).weaken id (fun _ _ => id) (fun name entry entry' hl hmakes R S key => ?_)
      fun part hpart g hg => ⟨hg, fun hm => Expr.firstOperation?_of_mem_parts (hmode hm) hpart⟩
    obtain ⟨body, hwithin, hentry⟩ := Expr.exists_define hl
    cases hmakes with
    | @intro e' g _ E hg _ =>
      obtain rfl : e' = body := by
        have hbody := congrArg (fun entry : EntryMaker => (entry [] "").body) hentry
        exact (TemplateBody.interpreted.inj hbody).1
      refine ⟨.built rfl rfl rfl rfl hg fun hm => ?_, rfl, rfl⟩
      rw [Expr.firstAsync?, Expr.firstOperation?_eq_none] at hmode ⊢
      exact fun c hc => hmode hm c (hwithin.calls c hc)
  cases hf.assembled foldKeeps_true with
  | folded h => exact absurd h (not_foldsIn hfold)
  | layered h _ _ => exact hsame f h
  | @awaiting f₀ operation h _ _ =>
    cases mode with
    | awaited => exact hsame f₀ h
    | sync =>
      have hle := BuildsIn.shape_le_dual foldKeeps_true e _ hf
        (Expr.methodsSync_of_firstAsync? (hmode rfl))
      exact absurd (show Shape.async ≤ .dual from hle) (by decide)

/-! ### Running twins -/

/-- Code of an expression, and a fragment that has been built from it or the same code again. -/
inductive Likewise (engine : Engine) (mode : Mode) : Code → Code → Prop
  | same (c : Code) : Likewise engine mode c c
  | built {e : Expr} {f : Fragment} : Builds engine e f →
    (mode = .sync → e.firstAsync? engine.operations = none) →
    Likewise engine mode (.walked e) (.built f)

/-- Code that is alike matches when the templates that it calls do. -/
theorem eval_likewise (hfold : engine.settings.fold = false) (host host' : Host)
    (hhost : host.operations = engine.operations ∧ host.mode = mode)
    (hhost' : host'.operations = engine.operations ∧ host'.mode = mode)
    (hcalls : ∀ x y, Twin engine mode x y → ∀ s v, (refinement engine mode).Paired (x.scope s v)
      (y.scope s v) (host.call x.body) (host'.call y.body))
    {c d : Code} (h : Likewise engine mode c d) (s : Scope) :
    (refinement engine mode).Paired s s (c.eval host) (d.eval host') := by
  refine Code.paired (M := Likewise engine mode) (refinement_common fun _ : True => hcalls) ?_ c d h
    s s rfl
  intro c d h
  rw [hhost.1, hhost.2, hhost'.1, hhost'.2]
  refine .inl ?_
  cases h with
  | same =>
    cases c with
    | walked e =>
      refine (layer_walked_self e mode fun h => absurd trivial h).transfer id (fun _ _ => id)
        (fun _ _ _ _ => id) ?_
      rintro part - _ rfl
      exact .same _
    | built f =>
      refine (layer_built_self f).transfer id (fun _ _ => id) (fun _ _ _ _ => id) ?_
      rintro part - _ rfl
      exact .same _
  | built hf hmode =>
    exact (layer_builds hfold hf hmode).transfer id (fun _ _ => id) (fun _ _ _ _ => id)
      fun part _ g hg => .built hg.1 hg.2

/-- An expression that calls no template matches itself in whatever mode it is walked. -/
theorem eval_callsNoTemplate (host : Host) (hhost : host.operations = engine.operations) {e : Expr}
    (h : e.CallsNoTemplate engine.operations) (s : Scope) :
    (refinement engine mode).Paired s s ((Code.walked e).eval host)
      ((Code.walked e).eval host) := by
  refine Code.paired (M := fun c d => c = d ∧ ∃ e, c = .walked e ∧
    e.CallsNoTemplate engine.operations) (refinement_common False.elim) ?_ _ _ ⟨rfl, e, rfl, h⟩
    s s rfl
  rintro _ _ ⟨rfl, e, rfl, h⟩
  rw [hhost]
  refine .inl ((layer_walked_self e host.mode fun _ => h).transfer id (fun _ _ => id)
    (fun _ _ _ _ => id) ?_)
  rintro part hpart _ rfl
  exact ⟨rfl, part, rfl, h.of_mem_parts hpart⟩

/-- Only a body that is stored as never awaited is run in another mode than it is called in. -/
theorem mode_cases (mode : Mode) (body : TemplateBody) :
    body.mode mode = mode ∨ mode = .awaited ∧ ∃ e, body = .interpreted e true := by
  cases body with
  | compiled f => exact .inl rfl
  | interpreted e isSync =>
    cases isSync with
    | false => exact .inl rfl
    | true =>
      cases mode with
      | sync => exact .inl rfl
      | awaited => exact .inr ⟨rfl, e, rfl⟩

/-- The bodies of twins match where they are called. -/
theorem runTemplate_twins (hfold : engine.settings.fold = false) (depth : Nat) :
    ∀ x y, Twin engine mode x y → ∀ s v,
      (refinement engine mode).Paired (x.scope s v) (y.scope s v)
        (engine.runTemplate depth mode x.body) (engine.runTemplate depth mode y.body) := by
  induction depth with
  | zero => exact fun x y _ s v E F _ => .hang trivial
  | succ depth ih =>
    intro x y htwin s v
    rw [runTemplate_succ, runTemplate_succ]
    have hlikewise {c d : Code} (h : Likewise engine mode c d) (s : Scope) :=
      eval_likewise hfold (engine.host depth mode) (engine.host depth mode) ⟨rfl, rfl⟩ ⟨rfl, rfl⟩
        ih h s
    cases htwin with
    | same hbody hcaptures hsettled =>
      have hscope : y.scope s v = x.scope s v := by
        unfold TemplateEntry.scope
        rw [hcaptures]
      rw [← hbody, hscope]
      rcases mode_cases mode x.body with hmode | ⟨rfl, e, he⟩
      · rw [hmode]
        exact hlikewise (.same _) _
      · rw [he]
        exact eval_callsNoTemplate (engine.host depth .sync) rfl (hsettled e rfl he) _
    | @built e f hx hxs hy hys hf hmode =>
      have hwalk : x.body.code.eval (engine.host depth (x.body.mode mode)) =
          (Code.walked e).eval (engine.host depth mode) := by
        rw [hx]
        cases hsync : e.isSync engine.operations with
        | true => exact engine.eval_of_isSync depth mode hsync
        | false => rfl
      have hscope := hf.eval_scope foldKeeps_true hxs hys (engine.host depth mode) s v
      unfold Simulation.Paired
      rw [hwalk, hy]
      show (refinement engine mode).Matches _ _
        ((Code.built f).eval (engine.host depth mode) (y.scope s v))
      rw [hscope]
      exact hlikewise (.built hf hmode) _

/-! ### Refinement -/

/-- Two outcomes are the same value or failure, with the same lines, and leave registries with the
same names. -/
structure SameOutcome (o p : Except Error Value × Effects) : Prop where
  result : o.1 = p.1
  log : o.2.log = p.2.log
  names : Keyed.keys o.2.templates = Keyed.keys p.2.templates

/-- Two evaluations, each given how deep its calls may nest, end alike: at each depth one has an
outcome exactly when the other does, and whenever both have one, these are the same. -/
structure EndAlike (m n : Nat → Option (Except Error Value × Effects)) : Prop where
  finish : ∀ depth, (m depth).isSome ↔ (n depth).isSome
  same : ∀ depth depth' o p, m depth = some o → n depth' = some p → SameOutcome o p

/-- Code that is likewise ends alike. -/
theorem endAlike_of_likewise (hfold : engine.settings.fold = false) {c d : Code}
    (h : Likewise engine mode c d) (s : Scope) {E : Effects}
    (hE : Twins engine mode E.templates E.templates) :
    EndAlike (fun depth => d.eval (engine.host depth mode) s E)
      (fun depth => c.eval (engine.host depth mode) s E) := by
  have hjoint : ∀ depth, (refinement engine mode).Joint (Value.Alike .full)
      (c.eval (engine.host depth mode) s E) (d.eval (engine.host depth mode) s E) := fun depth =>
    eval_likewise hfold (engine.host depth mode) (engine.host depth mode) ⟨rfl, rfl⟩ ⟨rfl, rfl⟩
      (runTemplate_twins hfold depth) h s ⟨hE, rfl, rfl, rfl⟩
  constructor
  · intro depth
    have h := hjoint depth
    generalize c.eval (engine.host depth mode) s E = x at h ⊢
    generalize d.eval (engine.host depth mode) s E = y at h ⊢
    cases h with
    | ok | error => exact Iff.rfl
    | hang => exact Iff.rfl
    | excused h => exact h.elim
    | lag h => exact h.elim
    | lead h => exact h.elim
  · rintro depth depth' ⟨r, E₁⟩ ⟨t, F₁⟩ hd hc
    -- Both outcomes are kept where calls may nest as deep as in either evaluation.
    have h := hjoint (max depth depth')
    rw [engine.eval_mono (Nat.le_max_left _ _) hd, engine.eval_mono (Nat.le_max_right _ _) hc] at h
    cases h with
    | ok hv hagree =>
      obtain rfl := Value.alike_full.mp hv
      exact ⟨rfl, hagree.log.symm, (Registry.Related.keys hagree.templates).symm⟩
    | error hagree => exact ⟨rfl, hagree.log.symm, (Registry.Related.keys hagree.templates).symm⟩
    | excused h => exact h.elim

/-- Without folding, a fragment that has been built refines its expression: awaited, where no body
that is stored as never awaited calls a template, and without awaiting, where the expression holds
nothing that has to be awaited. -/
theorem build_refines_walk (engine : Engine) (hfold : engine.settings.fold = false) {e : Expr}
    {f : Fragment} {depth₀ : Nat} {E₀ E₁ : Effects}
    (hbuild : engine.build depth₀ e E₀ = some (.ok f, E₁)) (s : Scope) (E : Effects) :
    (E.templates.Settled engine.operations →
        EndAlike (fun depth => engine.evalFragment depth .awaited f s E)
          (fun depth => engine.evalExpr depth .awaited e s E)) ∧
      (e.firstAsync? engine.operations = none →
        EndAlike (fun depth => engine.evalFragment depth .sync f s E)
          (fun depth => engine.evalExpr depth .sync e s E)) := by
  have hf : Builds engine e f := ⟨depth₀, E₀, E₁, trivial, hbuild⟩
  constructor
  · intro hsettled
    have hlikewise : Likewise engine .awaited (.walked e) (.built f) := .built hf nofun
    exact endAlike_of_likewise hfold hlikewise s (Twins.refl fun _ => hsettled)
  · intro hsync
    have hlikewise : Likewise engine .sync (.walked e) (.built f) := .built hf fun _ => hsync
    exact endAlike_of_likewise hfold hlikewise s (Twins.refl nofun)

/-- A definition and a call of a template that is walked: both halves of the refinement hold. -/
theorem build_refines_walk_inline :
    let engine : Engine := { settings := { fold := false } }
    let e : Expr := .call "cat"
      [.call "inline" [.text "Y", .path .this], .call "partial" [.text "X"]]
    let E : Effects := { templates := [("X", .interpreted engine.operations [] "X" (.path .this))] }
    ∃ f E₁, engine.build 0 e E = some (.ok f, E₁) ∧
      EndAlike (fun depth => engine.evalFragment depth .awaited f (Scope.root .null) E)
        (fun depth => engine.evalExpr depth .awaited e (Scope.root .null) E) ∧
      EndAlike (fun depth => engine.evalFragment depth .sync f (Scope.root .null) E)
        (fun depth => engine.evalExpr depth .sync e (Scope.root .null) E) := by
  intro engine e E
  have hsettled : E.templates.Settled engine.operations := by
    intro entry hentry e' he'
    obtain rfl := List.mem_singleton.mp hentry
    obtain ⟨rfl, -⟩ := TemplateBody.interpreted.inj he'
    exact fun c hc => absurd hc List.not_mem_nil
  refine ⟨_, _, rfl, ?_, ?_⟩
  · exact (build_refines_walk engine rfl rfl (Scope.root .null) E).1 hsettled
  · exact (build_refines_walk engine rfl rfl (Scope.root .null) E).2 rfl

/-- Another engine, on which `partial` is a method, stores a body as never awaited that calls a
template here. When everything is awaited, the body runs its template without awaiting: the walk
through an expression that defines this template logs a line before it fails, and the fragment fails
at once. -/
theorem unsettled_registry_differs :
    let engine : Engine := ({ settings := { fold := false } } : Engine).addMethod
      { Method.constant "later" (.string "z") with isAsync := true }
    let other : Engine := ({} : Engine).addMethod (Method.echo "partial")
    let e : Expr := .call "cat"
      [.call "inline" [.text "Y", .call "cat" [.call "log" [.literal (.int 1)], .call "later" []]],
        .call "partial" [.text "X"]]
    ∃ templates f E₁,
      other.registerExpr 0 "X" (.call "partial" [.text "Y"]) true {} =
        some (.ok (), { templates }) ∧
      engine.build 0 e { templates } = some (.ok f, E₁) ∧
      ¬EndAlike (fun depth => engine.evalFragment depth .awaited f (Scope.root .null) { templates })
        (fun depth => engine.evalExpr depth .awaited e (Scope.root .null) { templates }) := by
  intro engine other e
  refine ⟨_, _, _, rfl, rfl, fun h => ?_⟩
  have hlog := (h.same 3 3 _ _ rfl rfl).log
  cases hlog

end Engine

end Stencil
