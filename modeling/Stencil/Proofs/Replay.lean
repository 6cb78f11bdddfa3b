import Mathlib.Logic.Relation
import Stencil.Workspace
import Stencil.Proofs.Construction

/-!
# Renderings that are repeated

To render a template may define others, under names that are computed on the way, so that the next
rendering starts from another registry. Nothing that is there is ever replaced, though, and what a
rendering has looked up stays where it was. So a rendering that has succeeded can be replayed over
every registry that holds what it has left behind, and one that has failed over the very registry
that it has left behind.

## Main results

* `Engine.replays`: evaluations can be replayed.
* `Engine.buildTemplate_grows`, `Template.render_grows`: nothing that is registered is replaced.
* `Workspace.render_stable`: a rendering that has succeeded succeeds again, whatever has been
  rendered and built since, and a rendering that is repeated at once has the same outcome.
-/

namespace Stencil

open Simulation (Matches following)

/-- The computation only adds templates. It can be replayed over the templates that it leaves
behind, and over any others that hold these unless it has failed. -/
def EvalM.Replays {α : Type} (m : EvalM α) : Prop :=
  ∀ ⦃E r E'⦄, m E = some (r, E') →
    E.templates.Within E'.templates ∧
      ∀ T kept, E'.templates.Within T → (∀ err, r = .error err → T.Within E'.templates) →
        m { E with templates := T, kept } = some (r, { E' with templates := T, kept })

namespace Conduct

/-- What can be replayed. -/
def replaying : Conduct where
  Holds m := m.Replays
  pure := by
    rintro α a E r E' h
    cases h
    exact ⟨.refl _, fun _ _ _ _ => rfl⟩
  bind := by
    intro α β m k hm hk E r E' h
    rw [EvalM.bind_apply] at h
    rcases hmE : m E with _ | ⟨err | a, E₁⟩ <;> rw [hmE] at h
    · cases h
    · cases h
      obtain ⟨hgrows, hreplay⟩ := hm hmE
      refine ⟨hgrows, fun T kept hT hfailed => ?_⟩
      have hfailed' : T.Within E'.templates := hfailed err rfl
      rw [EvalM.bind_apply, hreplay T kept hT fun _ _ => hfailed']
    · obtain ⟨hgrows, hreplay⟩ := hm hmE
      obtain ⟨hgrows', hreplay'⟩ := hk a h
      refine ⟨hgrows.trans hgrows', fun T kept hT hfailed => ?_⟩
      rw [EvalM.bind_apply, hreplay T kept (hgrows'.trans hT) nofun]
      exact hreplay' T kept hT hfailed
  settle := by
    rintro v E r E' h
    cases h
    exact ⟨.refl _, fun _ _ _ _ => rfl⟩

/-- A result can be replayed. -/
theorem replaying_ofExcept {α : Type} (result : Except Error α) :
    replaying.Holds (EvalM.ofExcept result) := by
  rintro E r E' h
  cases h
  exact ⟨.refl _, fun _ _ _ _ => rfl⟩

/-- A call of a method can be replayed. -/
theorem replaying_call (m : Method) (args : Arguments) : replaying.Holds (m.call args) := by
  refine call args (fun lines => ?_) (replaying_ofExcept _)
  rintro E r E' h
  cases h
  exact ⟨.refl _, fun _ _ _ _ => rfl⟩

/-- What a look-up has found is found again, and what it has not found is not found over the same
names. -/
theorem replaying_finds {callee : TemplateBody → Lazy}
    (hcallee : ∀ body s, replaying.Holds (callee body s)) : replaying.Finds callee := by
  intro key k hk E r E' h
  rw [EvalM.bind_apply, EvalM.lookup_apply] at h
  cases hfind : Keyed.find? key E.templates with
  | some entry =>
    unfold Registry.get at h
    rw [hfind] at h
    obtain ⟨hgrows, hreplay⟩ := hk entry (hcallee _) h
    refine ⟨hgrows, fun T kept hT hfailed => ?_⟩
    rw [EvalM.bind_apply, EvalM.lookup_apply]
    unfold Registry.get
    rw [hT key entry (hgrows key entry hfind)]
    exact hreplay T kept hT hfailed
  | none =>
    unfold Registry.get at h
    rw [hfind] at h
    cases h
    refine ⟨.refl _, fun T kept hT hfailed => ?_⟩
    have hmissing : Keyed.find? key T = none := by
      cases hT : Keyed.find? key T with
      | none => rfl
      | some entry =>
        have hfound := hfailed _ rfl key entry hT
        rw [hfind] at hfound
        cases hfound
    rw [EvalM.bind_apply, EvalM.lookup_apply]
    unfold Registry.get
    rw [hmissing]

/-- A name that has been defined is taken when the definition is replayed. -/
theorem replaying_define {entry : EntryMaker} (hname : ∀ R key, (entry R key).name = key)
    (key : String) : replaying.Holds (EvalM.define entry key) := by
  intro E r E' h
  rw [EvalM.define_apply] at h
  cases h
  refine ⟨Registry.within_define _, fun T kept hT _ => ?_⟩
  have htaken : Keyed.contains key (E.templates.define (entry E.templates key)) = true := by
    unfold Registry.define Keyed.insertNew
    rw [hname]
    split
    · next h => exact h
    · simp [Keyed.contains]
  have hfree : T.define (entry T key) = T := by
    obtain ⟨found, hfound⟩ := Option.isSome_iff_exists.mp htaken
    unfold Registry.define Keyed.insertNew
    rw [hname, if_pos]
    exact Option.isSome_iff_exists.mpr ⟨found, hT key found hfound⟩
  rw [EvalM.define_apply]
  show some (_, { E with templates := T.define (entry T key), kept }) = _
  rw [hfree]

end Conduct

/-- A definition in code makes an entry of the name that it is given. -/
theorem Code.name_of_define {operations : Operations} {mode : Mode} {c name : Code}
    {entry : EntryMaker} (h : c.layer operations mode = .define name entry) (R : Registry)
    (key : String) : (entry R key).name = key := by
  obtain ⟨body, rfl⟩ | ⟨body, traits, rfl⟩ := Code.exists_define h
  · rfl
  · rfl

namespace Engine

/-! ### Evaluations -/

/-- Code can be replayed as soon as the templates that it calls can. -/
theorem replays_of_callee (host : Host)
    (hcallee : ∀ body s, (host.call body s).Replays) (c : Code) (s : Scope) :
    (c.eval host s).Replays := by
  refine Code.conduct (C := .replaying) (M := fun _ => True) (fun c _ => ⟨?_, fun _ _ => trivial⟩)
    c trivial s
  exact
    { refused := fun err _ => Conduct.replaying_ofExcept (.error err)
      method := fun m _ _ args => Conduct.replaying_call m args
      template := fun _ _ _ => Conduct.replaying_finds hcallee
      define := fun _ _ h => Conduct.replaying_define (Code.name_of_define h) }

/-- Running a template can be replayed. -/
theorem runTemplate_replays (engine : Engine) (depth : Nat) (mode : Mode) (body : TemplateBody)
    (s : Scope) : (engine.runTemplate depth mode body s).Replays := by
  induction depth generalizing mode body s with
  | zero => exact fun _ _ _ h => nomatch h
  | succ depth ih =>
    rw [runTemplate_succ]
    exact replays_of_callee (engine.host depth _) (fun body s => ih _ body s) _ s

/-- Evaluations can be replayed. -/
theorem replays (engine : Engine) (depth : Nat) (mode : Mode) (c : Code) (s : Scope) :
    (c.eval (engine.host depth mode) s).Replays :=
  replays_of_callee (engine.host depth mode)
    (fun body s => engine.runTemplate_replays depth mode body s) c s

end Engine

/-- A rendering can be replayed. -/
theorem Template.render_replays (engine : Engine) (depth : Nat) (template : Template)
    (data : Value) : (template.render engine depth data).Replays :=
  Conduct.render (C := .replaying)
    (engine.runTemplate_replays depth template.mode template.body) data

/-- A rendering keeps its outcome when calls may nest deeper. -/
theorem Template.render_mono (engine : Engine) {depth depth' : Nat} (h : depth ≤ depth')
    {template : Template} {data : Value} {E E' : Effects} {r : Except Error String}
    (hrender : template.render engine depth data E = some (r, E')) :
    template.render engine depth' data E = some (r, E') := by
  have hpaired : ∀ s, (following fun _ => False).Matches (· = ·)
      (engine.runTemplate depth template.mode template.body s)
      (engine.runTemplate depth' template.mode template.body s) := fun s =>
    (engine.runTemplate_paired_le h template.mode template.body s).mono fun _ _ =>
      Value.alike_full.mp
  have hmatches : (following fun _ => False).Matches (· = ·)
      (template.render engine depth data) (template.render engine depth' data) := by
    refine (Matches.following_refl (fun _ => rfl) _).bind ?_
    rintro data _ rfl
    refine (hpaired _).bind ?_
    rintro v _ rfl
    exact .pure rfl
  exact hmatches.follow (fun _ _ => id) hrender fun _ _ => id

/-! ### Registries that grow -/

/-- Rendering replaces nothing that is registered. -/
theorem Template.render_grows (engine : Engine) (depth : Nat) (template : Template) (data : Value)
    {E E' : Effects} {r : Except Error String}
    (h : template.render engine depth data E = some (r, E')) :
    E.templates.Within E'.templates :=
  (template.render_replays engine depth data h).1

/-- Building replaces nothing that is registered. -/
theorem Engine.buildTemplate_grows (engine : Engine) (depth : Nat) (strategy : Strategy) (e : Expr)
    {E E' : Effects} {r : Except Error Template}
    (h : engine.buildTemplate depth strategy e E = some (r, E')) :
    E.templates.Within E'.templates := by
  have hkeeps : (Conduct.keeping E.templates.Within fun _ => True).Holds
      (engine.buildTemplate depth strategy e) := by
    refine Conduct.buildTemplate engine depth (fun _ => Conduct.keeping_ofExcept fun _ _ => trivial)
      Conduct.keeping_templates (fun e => Conduct.keeping_tryFold engine depth e ?_) strategy e
    intro F r F' hF hrun
    exact ⟨hF.trans (engine.replays depth .sync (.walked e) _ hrun).1, fun _ _ => trivial⟩
  exact (hkeeps (.refl _) h).1

/-! ### Workspaces -/

namespace Workspace

/-- What may happen to a workspace between two renderings: templates are rendered and built, on any
of its engines and whatever this leads to, and built templates are kept. -/
inductive Step : Workspace → Workspace → Prop
  | render {w w' : Workspace} {seat : Seat} {depth : Nat} {template : Template} {data : Value}
      {outcome : Outcome String} :
      w.perform seat (fun engine => template.render engine depth data) = some (outcome, w') →
      Step w w'
  | build {w w' : Workspace} {seat : Seat} {depth : Nat} {strategy : Strategy} {e : Expr}
      {outcome : Outcome Template} :
      w.perform seat (fun engine => engine.buildTemplate depth strategy e) = some (outcome, w') →
      Step w w'
  | keep (w : Workspace) (name : String) (seat : Seat) (template : Template) :
      Step w (w.keep name seat template)

/-- Afterwards the engines are the same, and nothing that is registered has been replaced. -/
structure Follows (w w' : Workspace) : Prop where
  engineAt : ∀ seat, w'.engineAt seat = w.engineAt seat
  registryAt : ∀ seat, (w.registryAt seat).Within (w'.registryAt seat)
  length : w'.registries.length = w.registries.length

/-- A workspace follows itself. -/
theorem Follows.refl (w : Workspace) : w.Follows w :=
  ⟨fun _ => rfl, fun _ => .refl _, rfl⟩

/-- What follows later follows before. -/
theorem Follows.trans {w w' w'' : Workspace} (h : w.Follows w') (h' : w'.Follows w'') :
    w.Follows w'' :=
  ⟨fun seat => (h'.engineAt seat).trans (h.engineAt seat),
    fun seat => (h.registryAt seat).trans (h'.registryAt seat), h'.length.trans h.length⟩

/-- Running something that replaces nothing that is registered. -/
theorem follows_of_perform {α : Type} {w w' : Workspace} {seat : Seat} {action : Engine → EvalM α}
    {outcome : Outcome α} (h : w.perform seat action = some (outcome, w'))
    (hgrows : ∀ engine E r E', action engine E = some (r, E') → E.templates.Within E'.templates) :
    w.Follows w' := by
  obtain ⟨result, effects, hrun, -, rfl⟩ := exists_of_perform h
  refine ⟨fun _ => rfl, fun other => ?_, List.length_set⟩
  have hwithin := hgrows _ _ _ _ hrun
  simp only [registryAt, List.getElem?_set]
  split
  · next hplace =>
    rw [← hplace]
    split
    · exact hwithin
    · next hout =>
      rw [List.getElem?_eq_none (Nat.le_of_not_lt hout)]
      exact .refl _
  · exact .refl _

/-- A step leads to a workspace that follows. -/
theorem Step.follows {w w' : Workspace} (h : Step w w') : w.Follows w' := by
  cases h with
  | render h => exact follows_of_perform h fun engine _ _ _ => Template.render_grows engine _ _ _
  | build h => exact follows_of_perform h fun engine _ _ _ => engine.buildTemplate_grows _ _ _
  | keep => exact ⟨fun _ => rfl, fun _ => .refl _, rfl⟩

/-- Steps lead to a workspace that follows. -/
theorem follows_of_steps {w w' : Workspace} (h : Relation.ReflTransGen Step w w') :
    w.Follows w' := by
  induction h with
  | refl => exact .refl w
  | tail _ hstep ih => exact ih.trans hstep.follows

/-- A rendering is replayed in a workspace that follows the one that it has led to, and leaves it as
it is. -/
theorem perform_replay {w w₁ w₂ : Workspace} {seat : Seat}
    (hseat : seat.registry < w.registries.length)
    {template : Template} {data : Value} {depth depth' : Nat} (hdepth : depth ≤ depth')
    {outcome : Outcome String}
    (h : w.perform seat (fun engine => template.render engine depth data) = some (outcome, w₁))
    (hfollows : w₁.Follows w₂)
    (hfailed : ∀ err, outcome.result = .error err →
      (w₂.registryAt seat).Within (w₁.registryAt seat)) :
    w₂.perform seat (fun engine => template.render engine depth' data) = some (outcome, w₂) := by
  obtain ⟨result, effects, hrun, rfl, rfl⟩ := exists_of_perform h
  have hafter : registryAt { w with
      registries := w.registries.set seat.registry effects.templates
      kept := effects.kept } seat = effects.templates := by
    simp [registryAt, hseat]
  have hwithin := hfollows.registryAt seat
  rw [hafter] at hwithin hfailed
  have hreplay := (template.render_replays _ _ _ hrun).2 (w₂.registryAt seat) w₂.kept
    hwithin hfailed
  have hengine : w₂.engineAt seat = w.engineAt seat := hfollows.engineAt seat
  have hset : w₂.registries.set seat.registry (w₂.registryAt seat) = w₂.registries := by
    have hplace : seat.registry < w₂.registries.length := by
      rw [hfollows.length]
      simpa using hseat
    simp [registryAt, hplace]
  have hlater := Template.render_mono _ hdepth hreplay
  simp only [perform, hengine, hlater, Option.map_some, hset]

/-- A rendering that has succeeded succeeds again with the same text and the same lines, and changes
nothing in the workspace, whatever has been rendered and built since. A rendering that is repeated
at once has the same outcome, and changes nothing in the workspace. -/
theorem render_stable {w w₁ : Workspace} {seat : Seat} (hseat : seat.registry < w.registries.length)
    {template : Template} {data : Value} {depth : Nat} {outcome : Outcome String}
    (h : w.perform seat (fun engine => template.render engine depth data) = some (outcome, w₁))
    {depth' : Nat} (hdepth : depth ≤ depth') :
    (∀ text, outcome.result = .ok text → ∀ w₂, Relation.ReflTransGen Step w₁ w₂ →
        w₂.perform seat (fun engine => template.render engine depth' data) = some (outcome, w₂)) ∧
      w₁.perform seat (fun engine => template.render engine depth' data) = some (outcome, w₁) := by
  refine ⟨fun text htext w₂ hsteps => ?_, ?_⟩
  · refine perform_replay hseat hdepth h (follows_of_steps hsteps) fun err herr => ?_
    cases htext.symm.trans herr
  · exact perform_replay hseat hdepth h (.refl _) fun _ _ => .refl _

/-- A rendering that defines the template that it calls is repeated, and is so once more after
another rendering has failed. -/
theorem render_stable_definition :
    let w : Workspace :=
      { operations := [[("inline", .define), ("partial", .template), ("cat", .form .concat)]] }
    let seat : Seat := ⟨0, 0⟩
    let called : Expr := .call "partial" [.text "Y"]
    let template : Template :=
      ⟨.sync, .interpreted (.call "cat" [.call "inline" [.text "Y", .text "y"], called]) false⟩
    let failing : Template := ⟨.sync, .interpreted (.call "partial" [.text "X"]) false⟩
    ∃ w₁ w₂,
      w.perform seat (fun engine => template.render engine 2 .null) = some (⟨.ok "y", []⟩, w₁) ∧
        w₁.perform seat (fun engine => failing.render engine 2 .null) =
          some (⟨.error (.templateNotFound "X"), []⟩, w₂) ∧
        w₂.perform seat (fun engine => template.render engine 2 .null) =
          some (⟨.ok "y", []⟩, w₂) ∧
        w₁.perform seat (fun engine => template.render engine 2 .null) =
          some (⟨.ok "y", []⟩, w₁) := by
  intro w seat called template failing
  obtain ⟨w₁, w₂, hfirst, hfails⟩ : ∃ w₁ w₂,
      w.perform seat (fun engine => template.render engine 2 .null) = some (⟨.ok "y", []⟩, w₁) ∧
        w₁.perform seat (fun engine => failing.render engine 2 .null) =
          some (⟨.error (.templateNotFound "X"), []⟩, w₂) := ⟨_, _, rfl, rfl⟩
  obtain ⟨hlater, hagain⟩ := render_stable (show 0 < 1 by decide) hfirst (Nat.le_refl 2)
  exact ⟨w₁, w₂, hfirst, hfails, hlater "y" rfl w₂ (.single (.render hfails)), hagain⟩

end Workspace

end Stencil
