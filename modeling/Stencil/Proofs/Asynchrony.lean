import Stencil.Proofs.Awaiting
import Stencil.Proofs.Construction

/-!
# Engines that share a registry

Several engines may share one registry, and a name may be a method that has to be awaited on one of
them and not on another. A body that is built has its methods with it. A body that is walked finds
its methods on the engine that it is run on, while it was settled on the engine that has registered
it whether anything in it is ever awaited. Where this is still right, nothing fails for want of
being awaited when everything is.

## Main results

* `Engine.Shared.builtOn`: what is built in a shared registry has been built on one of the engines.
* `Engine.awaited_render_settles`: where what was settled about walked bodies is right on an engine,
  no template that is awaited on it fails for want of being awaited.
* `Engine.settled_elsewhere_fails`: a template that is awaited and fails so, because it was settled
  on another engine that nothing in a body is awaited.
-/

namespace Stencil

/-- The method never answers that something has to be awaited. -/
def Method.Settles (m : Method) : Prop :=
  ∀ args err, (m.run args).outcome = .error err → ¬err.Awaits

/-! ### Layers that are refused -/

namespace Expr

variable {operations : Operations} {mode : Mode}

/-- Every operation that the expression calls, as far as it is known, is never awaited. -/
def CallsSync (operations : Operations) (e : Expr) : Prop :=
  ∀ c ∈ e.calls, ∀ op, Keyed.find? c.1 operations = some op → op.isSync = true

/-- An expression in which nothing is ever awaited calls nothing that is. -/
theorem callsSync_of_isSync {e : Expr} (h : e.isSync operations = true) :
    e.CallsSync operations := by
  intro c hc op hop
  have hfirst : e.firstOperation? operations (fun op => !op.isSync) = none := by
    simpa [isSync] using h
  simpa using not_sought hfirst hc hop

/-- An expression is refused for want of being awaited only where nothing is awaited, because it
calls a method that has to be. -/
theorem exists_method_of_awaits : ∀ {e : Expr} {err : Error},
    e.layer operations mode = .refused err → err.Awaits →
      mode = .sync ∧
        ∃ c ∈ e.calls, ∃ m, Keyed.find? c.1 operations = some (.method m) ∧ m.isAsync = true
  | .literal _, _, h, _ | .path _, _, h, _ => by cases h
  | .named _ value, _, h, hawaits => exists_method_of_awaits (e := value) h hawaits
  | .call operation args, err, h, ⟨name, hname⟩ => by
    subst hname
    unfold layer Operations.get at h
    cases hop : Keyed.find? operation operations with
    | none =>
      rw [hop] at h
      cases h
    | some op =>
      rw [hop] at h
      cases op with
      | method m =>
        simp only [Operation.layer] at h
        split at h
        · next hsync => exact ⟨hsync.2, _, List.mem_cons_self, m, hop, hsync.1⟩
        · cases h
      | lookup =>
        simp only [Operation.layer] at h
        split at h
        · cases h
        · next err hpath =>
          unfold Operation.upwardPath at hpath
          split at hpath
          · cases hpath
          · cases hpath
            cases h
      | form => cases h
      | position => cases h
      | loop | context | template | define =>
        simp only [Operation.layer] at h
        split at h <;> cases h

end Expr

/-- A fragment that is awaited is not refused. -/
theorem Fragment.layer_awaited_ne_refused (err : Error) : ∀ f : Fragment,
    f.layer .awaited ≠ .refused err
  | .const _, h | .path _, h | .lookup _, h | .position _, h | .form _ _, h | .loop .., h
  | .context .., h | .template .., h | .define .., h => nomatch h
  | .method m args, h => by
    have hlayer : (Fragment.method m args).layer .awaited = .method m args := if_neg nofun
    rw [hlayer] at h
    cases h
  | .awaiting _ inner, h => layer_awaited_ne_refused err inner h

namespace Engine

/-- The methods of the engine never answer that something has to be awaited. -/
def MethodsSettle (engine : Engine) : Prop :=
  ∀ name m, Keyed.find? name engine.operations = some (.method m) → m.Settles

variable (engines : Engine → Prop)

/-- The code is walked, or has been built on one of the engines. -/
def BuiltOn : Code → Prop
  | .walked _ => True
  | .built f => ∃ engine, engines engine ∧ ∃ e, engine.Builds e f

variable {engines} {engine : Engine} {mode : Mode} {c : Code}

/-- The parts of code that has been built on an engine have been built on it. -/
theorem BuiltOn.part (h : BuiltOn engines c) {operations : Operations} {part : Code}
    (hpart : part ∈ (c.layer operations mode).parts) : BuiltOn engines part := by
  cases c with
  | walked e =>
    rw [Code.layer, Layer.parts_map] at hpart
    obtain ⟨e', -, rfl⟩ := List.mem_map.mp hpart
    trivial
  | built f =>
    obtain ⟨engine, hengine, e, hf⟩ := h
    rw [Code.layer, Layer.parts_map] at hpart
    obtain ⟨g, hg, rfl⟩ := List.mem_map.mp hpart
    rcases hf.layer_cases foldKeeps_true mode with ⟨v, hl⟩ | ⟨-, name, hl⟩ | hrel
    · rw [hl] at hg
      exact absurd hg List.not_mem_nil
    · rw [hl] at hg
      exact absurd hg List.not_mem_nil
    · obtain ⟨e', -, hg⟩ := hrel.exists_part hg
      exact ⟨engine, hengine, e', hg⟩

/-- The methods of code that has been built on some engines, or is walked on one of them, are
methods of these engines. -/
theorem BuiltOn.method (h : BuiltOn engines c) (hengine : engines engine) {m : Method}
    {parts : List (Option String × Code)}
    (hl : c.layer engine.operations mode = .method m parts) :
    ∃ engine, engines engine ∧ ∃ name, Keyed.find? name engine.operations = some (.method m) := by
  cases c with
  | walked e =>
    obtain ⟨_, hl⟩ := Layer.of_map_method hl
    obtain ⟨c, -, hop⟩ := Expr.exists_call hl rfl
    exact ⟨engine, hengine, c.1, hop⟩
  | built f =>
    obtain ⟨engine', hengine', e, hf⟩ := h
    obtain ⟨_, hl⟩ := Layer.of_map_method hl
    have hrel := hf.layer_rel hl nofun nofun
    generalize hl' : e.layer engine'.operations mode = l at hrel
    cases hrel with
    | method hm _ =>
      obtain rfl := hm
      obtain ⟨c, -, hop⟩ := Expr.exists_call hl' rfl
      exact ⟨engine', hengine', c.1, hop⟩

/-- What was settled about a walked body, that nothing in it is ever awaited, is right on the
engine. -/
def SettledEntry (engine : Engine) (entry : TemplateEntry) : Prop :=
  ∀ e, entry.body = .interpreted e true → e.CallsSync engine.operations

/-- The entries that code defines have been built on one of the engines, and are settled where they
are defined. -/
theorem BuiltOn.define (h : BuiltOn engines c) {name : Code} {entry : EntryMaker}
    (hl : c.layer engine.operations mode = .define name entry) (R : Registry) (key : String) :
    BuiltOn engines (entry R key).body.code ∧ engine.SettledEntry (entry R key) := by
  cases c with
  | walked e =>
    obtain ⟨_, hl⟩ := Layer.of_map_define hl
    obtain ⟨body, -, rfl⟩ := Expr.exists_define hl
    refine ⟨trivial, fun e he => ?_⟩
    obtain ⟨rfl, hsync⟩ := TemplateBody.interpreted.inj he
    exact Expr.callsSync_of_isSync hsync
  | built f =>
    obtain ⟨engine', hengine', e, hf⟩ := h
    obtain ⟨_, hl⟩ := Layer.of_map_define hl
    have hrel := hf.layer_rel hl nofun nofun
    generalize e.layer engine'.operations mode = l at hrel
    cases hrel with
    | define _ hentry =>
      cases hentry with
      | intro hbody _ => exact ⟨⟨engine', hengine', _, hbody⟩, nofun⟩

/-! ### What is registered -/

/-- A template that has been built is walked as it is, or has been built from its expression. -/
theorem buildTemplate_cases {depth : Nat} {strategy : Strategy} {e : Expr} {template : Template}
    {E E' : Effects} (h : engine.buildTemplate depth strategy e E = some (.ok template, E')) :
    template.mode = strategy.mode ∧
      (template.body = .interpreted e (e.isSync engine.operations) ∨
        ∃ f, template.body = .compiled f ∧ engine.Builds e f) := by
  unfold buildTemplate at h
  split at h
  · obtain ⟨f, E₁, hf, h⟩ := EvalM.bind_eq_ok h
    obtain ⟨_, E₂, -, h⟩ := EvalM.bind_eq_ok h
    cases h
    exact ⟨rfl, .inr ⟨f, rfl, depth, E, E₁, trivial, hf⟩⟩
  · obtain ⟨_, E₁, -, h⟩ := EvalM.bind_eq_ok h
    cases h
    exact ⟨rfl, .inl rfl⟩

/-- The body of a template has been built on the engine that it was built on. -/
theorem builtOn_of_buildTemplate (hengine : engines engine) {depth : Nat} {strategy : Strategy}
    {e : Expr} {template : Template} {E E' : Effects}
    (h : engine.buildTemplate depth strategy e E = some (.ok template, E')) :
    BuiltOn engines template.body.code := by
  rcases (buildTemplate_cases h).2 with hbody | ⟨f, hbody, hf⟩
  · rw [hbody]
    trivial
  · rw [hbody]
    exact ⟨engine, hengine, e, hf⟩

/-- An expression that is registered makes an entry with a property in a registry of such entries.
-/
theorem registerExpr_every {P : TemplateEntry → Prop} {depth : Nat} {name : String} {e : Expr}
    {interpreted : Bool}
    (hbuild : (Conduct.keeping (Registry.Every P) fun _ => True).Holds (engine.build depth e))
    (hwalked : ∀ R, P (TemplateEntry.interpreted engine.operations R name e))
    (hbuilt : ∀ R f, engine.Builds e f → P (TemplateEntry.compiled engine.operations R name e f))
    {E E' : Effects} {r : Except Error Unit} (hE : E.templates.Every P)
    (h : engine.registerExpr depth name e interpreted E = some (r, E')) :
    E'.templates.Every P := by
  unfold registerExpr buildEntry at h
  cases interpreted with
  | true =>
    cases h
    exact hE.register (hwalked _)
  | false =>
    simp only [EvalM.bind_apply, Bool.false_eq_true, if_false] at h
    rcases hf : engine.build depth e E with _ | ⟨err | f, E₁⟩ <;> rw [hf] at h
    · cases h
    · cases h
      exact (hbuild hE hf).1
    · cases h
      exact (hbuild hE hf).1.register (hbuilt _ f ⟨depth, E, E₁, trivial, hf⟩)

/-- Code that has been built on some engines keeps their registry one of what has been built on
them. -/
theorem preserves_builtOn (engines : Engine → Prop) (engine : Engine) :
    engine.Preserves (fun entry => BuiltOn engines entry.body.code) (fun _ => True)
      fun _ c => BuiltOn engines c where
  parts hc _ hpart := hc.part hpart
  refused _ _ := trivial
  method _ _ _ _ _ := trivial
  missing _ := trivial
  template _ _ _ hentry := hentry
  define hc hl R key := (hc.define hl R key).1

/-- What is folded defines entries that have been built on the engine. -/
theorem tryFold_keeps_builtOn (engines : Engine → Prop) (engine : Engine) (depth : Nat) (e : Expr) :
    (Conduct.keeping (Registry.Every fun entry => BuiltOn engines entry.body.code)
      fun _ => True).Holds (engine.tryFold depth e) :=
  Conduct.keeping_tryFold engine depth e <|
    (preserves_builtOn engines engine).eval depth (show BuiltOn engines (.walked e) from trivial) _

variable (engines) in
/-- The registries that engines which share one lead to: they register expressions, build templates
and render those that they have built. -/
inductive Shared : Registry → Prop
  | empty : Shared []
  | register {engine : Engine} {depth : Nat} {name : String} {e : Expr} {interpreted : Bool}
      {E E' : Effects} {r : Except Error Unit} : engines engine → Shared E.templates →
      engine.registerExpr depth name e interpreted E = some (r, E') → Shared E'.templates
  | build {engine : Engine} {depth : Nat} {strategy : Strategy} {e : Expr} {E E' : Effects}
      {r : Except Error Template} : engines engine → Shared E.templates →
      engine.buildTemplate depth strategy e E = some (r, E') → Shared E'.templates
  | render {engine : Engine} {depth depth' : Nat} {strategy : Strategy} {e : Expr} {data : Value}
      {template : Template} {E E' F F' : Effects} {r : Except Error String} :
      engines engine → Shared E.templates →
      engine.buildTemplate depth strategy e F = some (.ok template, F') →
      template.render engine depth' data E = some (r, E') → Shared E'.templates

/-- What is built in a shared registry has been built on one of the engines. -/
theorem Shared.builtOn {R : Registry} (h : Shared engines R) :
    R.Every fun entry => BuiltOn engines entry.body.code := by
  induction h with
  | empty => exact nofun
  | @register engine depth name e interpreted E E' r hengine _ hregister ih =>
    have hkeeps := Conduct.build engine depth (fun _ => Conduct.keeping_ofExcept fun _ _ => trivial)
      Conduct.keeping_templates (tryFold_keeps_builtOn engines engine depth) e
    exact registerExpr_every hkeeps (fun _ => trivial) (fun R f hf => ⟨engine, hengine, e, hf⟩) ih
      hregister
  | @build engine depth strategy e E E' r _ _ hbuild ih =>
    have hkeeps := Conduct.buildTemplate engine depth
      (fun _ => Conduct.keeping_ofExcept fun _ _ => trivial) Conduct.keeping_templates
      (tryFold_keeps_builtOn engines engine depth) strategy e
    exact (hkeeps ih hbuild).1
  | @render engine depth depth' strategy e data template E E' F F' r hengine _ hbuild hrender ih =>
    have hkeeps := Conduct.render (fun s => (preserves_builtOn engines engine).runTemplate depth'
      (builtOn_of_buildTemplate hengine hbuild) s) data
    exact (hkeeps ih hrender).1

/-! ### Awaited renderings -/

/-- What was settled about walked bodies, that nothing in them is ever awaited, is right on the
engine. -/
def Settled (engine : Engine) (R : Registry) : Prop :=
  R.Every engine.SettledEntry

/-- Code that is awaited, or is walked and calls nothing that ever is, keeps what was settled right
and does not fail for want of being awaited. -/
theorem preserves_settled (hmethods : ∀ engine, engines engine → engine.MethodsSettle)
    (hengine : engines engine) :
    engine.Preserves (fun entry => BuiltOn engines entry.body.code ∧ engine.SettledEntry entry)
      (fun err => ¬err.Awaits) fun mode c =>
        BuiltOn engines c ∧
          (mode = .awaited ∨ ∃ e, c = .walked e ∧ e.CallsSync engine.operations) where
  parts := by
    rintro mode c ⟨hc, hmode⟩ part hpart
    refine ⟨hc.part hpart, hmode.imp_right ?_⟩
    rintro ⟨e, rfl, he⟩
    rw [Code.layer, Layer.parts_map] at hpart
    obtain ⟨e', he', rfl⟩ := List.mem_map.mp hpart
    exact ⟨e', rfl, fun c hc => he c (Expr.calls_of_mem_parts he' c hc)⟩
  refused := by
    rintro mode c err ⟨hc, hmode⟩ hl hawaits
    cases c with
    | walked e =>
      obtain ⟨rfl, c, hc, m, hm, hasync⟩ :=
        Expr.exists_method_of_awaits (Layer.of_map_refused hl) hawaits
      rcases hmode with hmode | ⟨_, ⟨⟩, he⟩
      · cases hmode
      · have hsync : (!m.isAsync) = true := he c hc _ hm
        rw [hasync] at hsync
        cases hsync
    | built f =>
      rcases hmode with rfl | ⟨_, ⟨⟩, _⟩
      exact f.layer_awaited_ne_refused _ (Layer.of_map_refused hl)
  method := by
    rintro mode c m parts ⟨hc, -⟩ hl args err herr
    obtain ⟨engine', hengine', name, hm⟩ := hc.method hengine hl
    exact hmethods engine' hengine' name m hm args err herr
  missing := by
    rintro name ⟨_, h⟩
    cases h
  template := by
    rintro mode c name named ⟨hc, hmode⟩ hl entry ⟨hbuilt, hsettled⟩
    refine ⟨hbuilt, ?_⟩
    have hawaited : mode = .awaited := by
      refine hmode.resolve_right ?_
      rintro ⟨e, rfl, he⟩
      obtain ⟨_, _, hl⟩ := Layer.of_map_template hl
      obtain ⟨c, hc, hop⟩ := Expr.exists_call hl rfl
      exact Bool.noConfusion (he c hc _ hop)
    subst hawaited
    cases hbody : entry.body with
    | compiled f => exact .inl rfl
    | interpreted e isSync =>
      cases isSync with
      | false => exact .inl rfl
      | true => exact .inr ⟨e, rfl, hsettled e hbody⟩
  define := by
    rintro mode c name entry ⟨hc, -⟩ hl R key
    exact hc.define hl R key

/-- Engines share a registry, and none of their methods answers that something has to be awaited. A
template that has been built on one of them to be awaited never fails for want of being awaited,
where what was settled about the walked bodies in the registry is right on this engine. -/
theorem awaited_render_settles (hmethods : ∀ engine, engines engine → engine.MethodsSettle)
    (hengine : engines engine) {E : Effects} (hshared : Shared engines E.templates)
    (hsettled : engine.Settled E.templates) {depth : Nat} {strategy : Strategy} {e : Expr}
    {template : Template} {F F' : Effects} (hmode : strategy.mode = .awaited)
    (hbuild : engine.buildTemplate depth strategy e F = some (.ok template, F')) {depth' : Nat}
    {data : Value} {r : Except Error String} {E' : Effects}
    (hrender : template.render engine depth' data E = some (r, E')) (name : String) :
    r ≠ .error (.awaitRequired name) := by
  rintro rfl
  have hpreserves := preserves_settled hmethods hengine
  have hbuilt := builtOn_of_buildTemplate hengine hbuild
  have hbody : BuiltOn engines template.body.code ∧
      (template.body.mode template.mode = .awaited ∨
        ∃ e, template.body.code = .walked e ∧ e.CallsSync engine.operations) := by
    refine ⟨hbuilt, ?_⟩
    obtain ⟨hstrategy, hbody | ⟨f, hbody, -⟩⟩ := buildTemplate_cases hbuild
    · cases hsync : e.isSync engine.operations with
      | true => exact .inr ⟨e, by rw [hbody]; rfl, Expr.callsSync_of_isSync hsync⟩
      | false =>
        rw [hbody, hstrategy, hmode, hsync]
        exact .inl rfl
    · rw [hbody, hstrategy, hmode]
      exact .inl rfl
  have hkeeps := Conduct.render (hpreserves.runTemplate depth' hbody) data
  have hinv : E.templates.Every fun entry =>
      BuiltOn engines entry.body.code ∧ engine.SettledEntry entry :=
    fun key entry hfind => ⟨hshared.builtOn key entry hfind, hsettled key entry hfind⟩
  exact (hkeeps hinv hrender).2 _ rfl ⟨name, rfl⟩

/-- A constant method never answers that something has to be awaited. -/
theorem settles_constant (name : String) (value : Value) :
    (Method.constant name value).Settles := by
  rintro args err ⟨⟩

/-- The engine on which `later` has to be awaited. -/
def waiting : Engine where
  operations := [("cat", .form .concat), ("partial", .template),
    ("later", .method { Method.constant "later" (.string "z") with isAsync := true })]

/-- The engine on which `later` is never awaited. -/
def prompt : Engine where
  operations := [("cat", .form .concat), ("later", .method (Method.constant "later" (.string "z")))]

/-- No method of this engine answers that something has to be awaited. -/
theorem methodsSettle_waiting : waiting.MethodsSettle := by
  intro name m hm
  simp only [waiting, Keyed.find?] at hm
  split at hm
  · cases hm
  · split at hm
    · cases hm
    · split at hm
      · cases hm
        rintro args err ⟨⟩
      · cases hm

/-- No method of this engine answers that something has to be awaited. -/
theorem methodsSettle_prompt : prompt.MethodsSettle := by
  intro name m hm
  simp only [prompt, Keyed.find?] at hm
  split at hm
  · cases hm
  · split at hm
    · cases hm
      exact settles_constant _ _
    · cases hm

/-- A template calls two walked bodies that two engines have registered. In one of them nothing has
to be awaited on either engine, which was settled on the other engine; the other one is awaited. -/
theorem awaited_render_settles_waiting : ∃ E E' F' template r G,
    prompt.registerExpr 0 "X" (.call "cat" [.text "x"]) true {} = some (.ok (), E) ∧
      waiting.registerExpr 0 "Y" (.call "later" []) true E = some (.ok (), E') ∧
      E'.templates.map (fun entry => (entry.1, entry.2.body)) =
        [("X", .interpreted (.call "cat" [.text "x"]) true),
          ("Y", .interpreted (.call "later" []) false)] ∧
      waiting.buildTemplate 1 .compiledAsync
        (.call "cat" [.call "partial" [.text "X"], .call "partial" [.text "Y"]]) E' =
          some (.ok template, F') ∧
      template.render waiting 2 .null E' = some (r, G) ∧ r = .ok "xz" ∧
      r ≠ .error (.awaitRequired "later") := by
  obtain ⟨E, E', template, F', G, hprompt, hwaiting, hbodies, hbuild, hrender⟩ :
      ∃ E E' template F' G,
        prompt.registerExpr 0 "X" (.call "cat" [.text "x"]) true {} = some (.ok (), E) ∧
          waiting.registerExpr 0 "Y" (.call "later" []) true E = some (.ok (), E') ∧
          E'.templates.map (fun entry => (entry.1, entry.2.body)) =
            [("X", .interpreted (.call "cat" [.text "x"]) true),
              ("Y", .interpreted (.call "later" []) false)] ∧
          waiting.buildTemplate 1 .compiledAsync
            (.call "cat" [.call "partial" [.text "X"], .call "partial" [.text "Y"]]) E' =
              some (.ok template, F') ∧
          template.render waiting 2 .null E' = some (.ok "xz", G) :=
    ⟨_, _, _, _, _, rfl, rfl, rfl, rfl, rfl⟩
  have hshared : Shared (fun engine => engine = prompt ∨ engine = waiting) E'.templates :=
    .register (.inr rfl) (.register (.inl rfl) .empty hprompt) hwaiting
  have hsettled : waiting.Settled E'.templates := by
    intro key entry hfind e hbody
    have hmem := List.mem_map_of_mem (f := fun entry => (entry.1, entry.2.body))
      (Keyed.mem_of_find? hfind)
    rw [hbodies, hbody] at hmem
    obtain ⟨rfl, -⟩ : e = .call "cat" [.text "x"] ∧ key = "X" := by simpa [and_comm] using hmem
    exact Expr.callsSync_of_isSync rfl
  have hmethods : ∀ engine, engine = prompt ∨ engine = waiting → engine.MethodsSettle := by
    rintro _ (rfl | rfl)
    · exact methodsSettle_prompt
    · exact methodsSettle_waiting
  exact ⟨E, E', F', template, _, G, hprompt, hwaiting, hbodies, hbuild, hrender, rfl,
    awaited_render_settles hmethods (.inr rfl) hshared hsettled rfl hbuild hrender "later"⟩

/-- Not every awaited template settles: one engine has registered a walked body in which nothing has
to be awaited there, and on the other engine something in it has to be. -/
theorem settled_elsewhere_fails :
    ¬∀ engines : Engine → Prop, (∀ engine, engines engine → engine.MethodsSettle) →
      ∀ engine, engines engine → ∀ E : Effects, Shared engines E.templates →
      ∀ depth (strategy : Strategy) e template F F', strategy.mode = .awaited →
      engine.buildTemplate depth strategy e F = some (.ok template, F') →
      ∀ depth' data r E', template.render engine depth' data E = some (r, E') →
      ∀ name, r ≠ .error (.awaitRequired name) := by
  intro hclaim
  obtain ⟨E, template, F', E', hregister, hbuild, hrender⟩ : ∃ E template F' E',
      prompt.registerExpr 0 "X" (.call "later" []) true {} = some (.ok (), E) ∧
        waiting.buildTemplate 0 .compiledAsync (.call "partial" [.text "X"]) E =
          some (.ok template, F') ∧
        template.render waiting 2 .null E = some (.error (.awaitRequired "later"), E') :=
    ⟨_, _, _, _, rfl, rfl, rfl⟩
  refine hclaim (fun engine => engine = prompt ∨ engine = waiting) ?_ waiting (.inr rfl) E
    (.register (.inl rfl) .empty hregister) 0 .compiledAsync _ template E F' rfl hbuild 2 .null _ E'
    hrender "later" rfl
  rintro _ (rfl | rfl)
  · exact methodsSettle_prompt
  · exact methodsSettle_waiting

end Engine

end Stencil
