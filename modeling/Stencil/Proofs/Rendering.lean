import Stencil.Proofs.Standing
import Stencil.Workspace

/-!
# Renderings that run alike

A template that runs as a reference does on the watched engine renders as it does, unless the
reference refuses. The two start from registries with the same names, where each entry runs as the
one of the reference does, and they define templates that do so again on the way. Constants that
stand for calls only cut evaluations short: whenever the reference has an outcome, so has the
template. The converse holds when the calls of the reference may nest deeper by a margin. An engine
that does not fold leaves no such constants, so that it needs no margin.

## Main results

* `Engine.Runs.paired`: code that runs alike matches.
* `Template.shown_of_reference`: what the reference shows is shown, unless it refuses.
* `Template.reference_of_shown`: with a margin, the reference shows what is shown, or refuses.
-/

namespace Stencil

open Simulation (Matches)

/-- What a rendering shows, when it starts from the registry of some effects: a text or a failure,
and the lines that have been logged. -/
def Template.shown (engine : Engine) (depth : Nat) (template : Template) (data : Value)
    (E : Effects) : Option (Outcome String) :=
  (template.render engine depth data { templates := E.templates, kept := E.kept }).map
    fun (result, after) => { result, log := after.log }

/-- Two outcomes have the same result, and the same lines as well when these are asked for. -/
def Outcome.Same {α : Type} (lines : Prop) (o p : Outcome α) : Prop :=
  o.result = p.result ∧ (lines → o.log = p.log)

namespace Outcome.Same

variable {α : Type} {lines : Prop} {o p q : Outcome α}

/-- Outcomes that are the same as a third one are the same. -/
theorem trans (h : o.Same lines p) (h' : p.Same lines q) : o.Same lines q :=
  ⟨h.1.trans h'.1, fun hlines => (h.2 hlines).trans (h'.2 hlines)⟩

/-- Outcomes that are the same with their lines are equal. -/
theorem eq (h : o.Same lines p) (hlines : lines) : o = p := by
  obtain ⟨result, log⟩ := o
  obtain ⟨rfl, hlog⟩ := h
  exact congrArg (Outcome.mk _) (hlog hlines)

end Outcome.Same

namespace Engine

/-- The simulation between renderings whose registries hold entries that run alike. -/
def together (engine : Engine) (refusal : Error) (final L : Registry) (margin : Nat)
    (lags leads : Prop) : Simulation :=
  watchful refusal lags leads
    (fun E F => Registry.Related (engine.Mirror refusal final L margin) E.templates F.templates ∧
      L.Within E.templates ∧ (engine.MethodsQuiet → E.log = F.log))
    fun _ _ _ _ h => h

variable {engine : Engine} {refusal : Error} {final L : Registry} {margin : Nat} {lags leads : Prop}

/-- What layers have in common is matched by the simulation, when the templates are that are called.
-/
theorem together_common {call call' : TemplateBody → Lazy}
    (hcalls : ∀ x y, engine.Mirror refusal final L margin x y → ∀ s t v w, s.Alike .bare t →
      v.Alike .bare w → (engine.together refusal final L margin lags leads).Paired (x.scope s v)
        (y.scope t w) (call x.body) (call' y.body)) :
    (engine.together refusal final L margin lags leads).Common call call'
      (running engine refusal final L margin) where
  calls := by
    rintro - E F ⟨htemplates, -⟩ key
    exact (htemplates.get key).imp fun x y hxy => hcalls x y hxy
  methods := by
    rintro _ m rfl args args' hargs
    refine watchful_call hargs ?_
    rintro E F ⟨htemplates, hwithin, hlog⟩
    exact ⟨htemplates, hwithin, fun hquiet => congrArg (· ++ _) (hlog hquiet)⟩
  entries := by
    rintro entry entry' hentry E F ⟨htemplates, hwithin, hlog⟩ key
    obtain ⟨hmirror, hname, hname'⟩ := hentry E.templates F.templates key
    exact ⟨htemplates.define (hname.trans hname'.symm) hmirror,
      hwithin.trans (Registry.within_define _), hlog⟩

/-- Code that runs alike matches when the templates that it calls do. Where a constant stands for an
expression, the walk through it may lag, or its calls may nest as deep as the margin. -/
theorem Runs.eval_paired (hsync : engine.MethodsSync) {depth depth' : Nat}
    (hdepth : engine.settings.fold = true → lags ∨ margin ≤ depth)
    (hcalls : ∀ x y, engine.Mirror refusal final L margin x y → ∀ s t v w, s.Alike .bare t →
      v.Alike .bare w → (engine.together refusal final L margin lags leads).Paired (x.scope s v)
        (y.scope t w) ((engine.watched refusal).runTemplate depth .sync x.body)
        (engine.runTemplate depth' .sync y.body))
    {c d : Code} (h : engine.Runs refusal final L margin c d) {s t : Scope}
    (hst : s.Alike .bare t) :
    (engine.together refusal final L margin lags leads).Paired s t
      (c.eval ((engine.watched refusal).host depth .sync)) (d.eval (engine.host depth' .sync)) := by
  have hcommon : (engine.together refusal final L margin lags leads).Common
      ((engine.watched refusal).host depth .sync).call (engine.host depth' .sync).call
      (running engine refusal final L margin) := together_common hcalls
  refine Code.paired (M := engine.Runs refusal final L margin) hcommon ?_ c d h s t hst
  intro c d h
  rcases h.layer hsync with ⟨e, v, L₀, rfl, rfl, hfold, hL₀, hstands⟩ | hrel
  · refine .inr fun s t _ => hstands.paired ?_ ?_ (hdepth hfold) _ s t
    · rintro E F ⟨-, hwithin, -⟩
      exact hL₀.trans hwithin
    · rintro E E' F ⟨htemplates, hwithin, hlog⟩ hkept hkeptLog
      refine ⟨?_, ?_, fun hquiet => (hkeptLog hquiet).trans (hlog hquiet)⟩
      · rwa [hkept]
      · rwa [hkept]
  · exact .inl hrel

/-- Where an entry leaves no frame behind, it does not see the one that the entry of the reference
leaves. -/
theorem Mirror.eval_scope {x y : TemplateEntry} (h : engine.Mirror refusal final L margin x y)
    (host : Host) (s : Scope) (v : Value) :
    y.body.code.eval host (y.scope s v) = y.body.code.eval host (x.scope s v) := by
  cases h with
  | same h =>
    unfold TemplateEntry.scope
    rw [h.capturesScope]
  | built hx hxs hy hys _ hf =>
    obtain ⟨_, _, _, _, hkeeps, _, hf⟩ := hf
    rw [hy]
    exact hf.eval_scope hkeeps hxs hys host s v

/-- Code that runs alike matches, with calls that nest deeper in one of the two. The margin between
them has to be that of the code only where there are constants that stand for calls. -/
theorem Runs.paired (hsync : engine.MethodsSync) {gap : Nat}
    (hgap : engine.settings.fold = true → margin ≤ gap) {depth depth' : Nat}
    (hpace : (engine.together refusal final L margin lags leads).InPace gap depth depth')
    {c d : Code}
    (h : engine.Runs refusal final L margin c d) {s t : Scope} (hst : s.Alike .bare t) :
    (engine.together refusal final L margin lags leads).Paired s t
      (c.eval ((engine.watched refusal).host depth .sync)) (d.eval (engine.host depth' .sync)) := by
  induction depth using Nat.strongRecOn generalizing depth' c d s t with
  | ind depth ih =>
    refine h.eval_paired hsync (fun hfold => hpace.lags_or_le.imp_right (Nat.le_trans (hgap hfold)))
      ?_ hst
    intro x y hxy s t v w hst hvw
    refine runTemplate_paired hpace fun d d' hd hpace => ?_
    unfold Simulation.Paired
    rw [hxy.eval_scope]
    exact ih d hd hpace hxy.runs (x.scope_alike hst hvw)

end Engine

namespace Template

variable {engine : Engine} {refusal : Error} {final L : Registry} {margin gap : Nat}
  {lags leads : Prop}

/-- Templates that run alike match when they are rendered. -/
theorem render_matches (hsync : engine.MethodsSync)
    (hgap : engine.settings.fold = true → margin ≤ gap) {depth depth' : Nat}
    (hpace : (engine.together refusal final L margin lags leads).InPace gap depth depth')
    {T U : Template} (hT : T.mode = .sync) (hU : U.mode = .sync)
    (h : engine.Runs refusal final L margin T.body.code U.body.code) (data : Value) :
    (engine.together refusal final L margin lags leads).Matches (· = ·)
      (T.render (engine.watched refusal) depth data) (U.render engine depth' data) := by
  have hdata : data.Alike (engine.together refusal final L margin lags leads).marks data := rfl
  refine (Matches.settle hdata).bind fun v w hvw => ?_
  refine Matches.bind (Q := Value.Alike .bare) ?_ fun v w hvw => .pure hvw.output
  rw [hT, hU]
  refine Engine.runTemplate_paired hpace fun d d' _ hpace => h.paired hsync hgap hpace ?_
  exact congrArg (fun v => Scope.root v) hvw

/-- Renderings that run alike and start from registries that do. -/
theorem render_joint (hsync : engine.MethodsSync)
    (hgap : engine.settings.fold = true → margin ≤ gap) {depth depth' : Nat}
    (hpace : (engine.together refusal final L margin lags leads).InPace gap depth depth')
    {T U : Template} (hT : T.mode = .sync) (hU : U.mode = .sync)
    (h : engine.Runs refusal final L margin T.body.code U.body.code) {E F : Effects}
    (hmirror : Registry.Related (engine.Mirror refusal final L margin) E.templates F.templates)
    (hwithin : L.Within E.templates) (data : Value) :
    (engine.together refusal final L margin lags leads).Joint (· = ·)
      (T.render (engine.watched refusal) depth data { templates := E.templates, kept := E.kept })
      (U.render engine depth' data { templates := F.templates, kept := F.kept }) :=
  render_matches hsync hgap hpace hT hU h data ⟨hmirror, hwithin, fun _ => rfl⟩

/-- What the reference shows is shown, unless the reference refuses. -/
theorem shown_of_reference (hsync : engine.MethodsSync) {T U : Template} (hT : T.mode = .sync)
    (hU : U.mode = .sync) (h : engine.Runs refusal final L margin T.body.code U.body.code)
    {E F : Effects}
    (hmirror : Registry.Related (engine.Mirror refusal final L margin) E.templates F.templates)
    (hwithin : L.Within E.templates) {depth : Nat} {data : Value} {o : Outcome String}
    (hshown : T.shown (engine.watched refusal) depth data E = some o) :
    o.result = .error refusal ∨
      ∃ o', U.shown engine depth data F = some o' ∧ o'.Same engine.MethodsQuiet o := by
  simp only [shown, Option.map_eq_some_iff, Prod.exists] at hshown
  obtain ⟨result, after, hrender, rfl⟩ := hshown
  have hpace : (engine.together refusal final L margin True False).InPace margin depth depth :=
    .lagging trivial (Nat.le_refl depth)
  have hjoint := render_joint hsync (fun _ => Nat.le_refl margin) hpace hT hU h hmirror hwithin data
  rw [hrender] at hjoint
  unfold shown
  generalize U.render engine depth data { templates := F.templates, kept := F.kept } = outcome
    at hjoint ⊢
  cases hjoint with
  | ok htext hrel =>
    subst htext
    exact .inr ⟨_, rfl, rfl, fun hquiet => (hrel.2.2 hquiet).symm⟩
  | error hrel => exact .inr ⟨_, rfl, rfl, fun hquiet => (hrel.2.2 hquiet).symm⟩
  | excused herr =>
    obtain rfl : _ = refusal := herr
    exact .inl rfl
  | lead h => exact h.elim

/-- The reference shows what is shown, or refuses, when its calls may nest deeper by the margin.
Without folding it needs no margin. -/
theorem reference_of_shown (hsync : engine.MethodsSync)
    (hgap : engine.settings.fold = true → margin ≤ gap) {T U : Template} (hT : T.mode = .sync)
    (hU : U.mode = .sync) (h : engine.Runs refusal final L margin T.body.code U.body.code)
    {E F : Effects}
    (hmirror : Registry.Related (engine.Mirror refusal final L margin) E.templates F.templates)
    (hwithin : L.Within E.templates) {depth : Nat} {data : Value} {o : Outcome String}
    (hshown : U.shown engine depth data F = some o) :
    ∃ o', T.shown (engine.watched refusal) (depth + gap) data E = some o' ∧
      (o'.result = .error refusal ∨ o'.Same engine.MethodsQuiet o) := by
  simp only [shown, Option.map_eq_some_iff, Prod.exists] at hshown
  obtain ⟨result, after, hrender, rfl⟩ := hshown
  have hpace :
      (engine.together refusal final L margin False True).InPace gap (depth + gap) depth :=
    .leading trivial (Nat.le_refl _)
  have hjoint := render_joint hsync hgap hpace hT hU h hmirror hwithin data
  rw [hrender] at hjoint
  unfold shown
  generalize T.render (engine.watched refusal) (depth + gap) data
    { templates := E.templates, kept := E.kept } = outcome at hjoint ⊢
  cases hjoint with
  | ok htext hrel =>
    subst htext
    exact ⟨_, rfl, .inr ⟨rfl, fun hquiet => hrel.2.2 hquiet⟩⟩
  | error hrel => exact ⟨_, rfl, .inr ⟨rfl, fun hquiet => hrel.2.2 hquiet⟩⟩
  | excused herr =>
    obtain rfl : _ = refusal := herr
    exact ⟨_, rfl, .inl rfl⟩
  | lag h => exact h.elim

end Template

end Stencil
