import Stencil.Proofs.Determinism

/-!
# What depends on a context alone

An expression that is deterministic once its context is known reads its context and nothing else of
its scope: no frame, and no place in a loop. The bodies inside of it may have other contexts, an
item or the value of a block, but these come about from the context in turn. A template that it
calls without values gets the context around the call, and one that it calls with values gets a
context made of them. So the analysis of its body, which is stored with the template, is what the
call relies on; it stays right as long as no name is registered again.

Here nothing has to be asked of sections, as it has to be where the context is unknown: a section
over `true` evaluates its body in the scope around it, and so in a context that is known.

## Main results

* `Engine.Fixed.paired_of_context`: code that is deterministic in its context matches itself at all
  scopes with that context, whether it is awaited or not.
* `Engine.context_determines`: such expressions, what is built from them and the templates that are
  stored as such have one outcome in each context; what depends on nothing is among them.
-/

namespace Stencil

namespace Engine

variable {engine engine' : Engine} {R : Registry}

/-- Code that is deterministic in its context matches itself on an engine that agrees, at scopes
with one context, as soon as the templates that it may call do. -/
theorem Fixed.paired_of_callees (hagree : engine.Agrees engine') {depth : Nat} {mode : Mode}
    (hcallees : ∀ bare key entry, R.Callable bare key → Keyed.find? key R = some entry →
      ∀ s t, s.context = t.context → ((engine.keeps_templates R).simulation True).Paired s t
        (engine.runTemplate depth mode entry.body) (engine'.runTemplate depth mode entry.body))
    {c : Code} (h : engine.Fixed R true c) {s t : Scope} (hst : s.context = t.context) :
    ((engine.keeps_templates R).simulation True).Paired s t (c.eval (engine.host depth mode))
      (c.eval (engine'.host depth mode)) := by
  have common : ((engine.keeps_templates R).simulation True).SteadyCommon (engine.host depth mode)
      (engine'.host depth mode) (fun known bare key => known = true ∧ R.Callable bare key)
      (fun m m' => m = m' ∧ engine.operations.Deterministic m) := by
    refine (engine.keeps_templates R).common ?_
    rintro known bare key ⟨hknown, hcallable⟩
    obtain ⟨entry, hfind, -⟩ := id hcallable
    exact ⟨entry, hfind, fun s t hst => hcallees bare key entry hcallable hfind s t
      (hst (.inl hknown))⟩
  refine Code.paired_steady (M := fun known c d => known = true ∧ c = d ∧ engine.Fixed R true c)
    common ?_ c true c ⟨rfl, rfl, h⟩ s t fun _ => Value.alike_full.mpr hst
  rintro known c _ ⟨rfl, rfl, hc⟩
  have hrel : (c.layer engine.operations mode).Rel .same Eq (c.layer engine'.operations mode) :=
    hc.layer_eq hagree mode ▸ .refl _
  -- The context stays known in every part, so that no section is met whose context is unknown.
  refine .inl ((hc.determined mode).steady hrel (fun _ _ _ _ _ hkey => ⟨rfl, hkey⟩)
    (fun _ _ hm h => ⟨h, hm⟩) ?_ ?_ ?_ ?_)
  · rintro c _ v h rfl
    exact h
  · rintro part - _ hpart rfl
    exact ⟨rfl, rfl, hpart⟩
  · rintro part _ hpart rfl
    exact ⟨rfl, rfl, hpart⟩
  · rintro params selector body branch hl hknown
    cases hknown

/-- Code that is deterministic in its context matches itself on an engine that agrees, at scopes
with one context, whether it is awaited or not. -/
theorem Fixed.paired_of_context (hR : engine.Grown R) (hagree : engine.Agrees engine')
    (depth : Nat) :
    ∀ {mode : Mode} {c : Code}, engine.Fixed R true c → ∀ s t, s.context = t.context →
      ((engine.keeps_templates R).simulation True).Paired s t (c.eval (engine.host depth mode))
        (c.eval (engine'.host depth mode)) := by
  induction depth with
  | zero =>
    intro mode c h s t hst
    exact h.paired_of_callees hagree (fun _ _ _ _ _ s t _ E F _ => .hang trivial) hst
  | succ depth ih =>
    intro mode c h s t hst
    refine h.paired_of_callees hagree (fun bare key entry hcallable hfind s t hst => ?_) hst
    rw [runTemplate_succ, runTemplate_succ]
    exact ih (hR.fixed_body hcallable hfind).with_context s t hst

/-- Code that is deterministic in its context has one outcome at all scopes with that context. -/
theorem Fixed.eval_eq (hR : engine.Grown R) (hagree : engine.Agrees engine') {c : Code}
    (h : engine.Fixed R true c) (depth : Nat) (mode : Mode) {s t : Scope} {E : Effects}
    (hE : E.templates = R) (hst : s.context = t.context) :
    c.eval (engine.host depth mode) s E = c.eval (engine'.host depth mode) t E :=
  (engine.keeps_templates R).eq (h.paired_of_context hR hagree depth s t hst) hE

/-- What depends on nothing depends on no more than its context. -/
theorem EntryOf.isDeterministic_of_isInlinable {e : Expr} {entry : TemplateEntry}
    (h : engine.EntryOf R e entry) (hinlinable : entry.traits.isInlinable = true) :
    entry.traits.isDeterministic = true := by
  obtain ⟨hdeterministic, hinline⟩ := h.traits
  rw [hinline] at hinlinable
  rw [hdeterministic]
  exact Expr.Fixed.mono (fun _ _ h => h) (fun _ => rfl) e hinlinable

/-- Over a registry in which every name was registered once, an expression that is deterministic in
its context has the same outcome at any two scopes with the same context, and so has what is built
from it, and so have the bodies of the templates that are stored as deterministic. The outcome is
the same on every engine that agrees, whatever its methods do that are not deterministic. An
expression that is deterministic without a context is so in every context, and what is stored as
depending on nothing is stored as deterministic. -/
theorem context_determines (engine : Engine) {R : Registry} (hR : engine.Grown R) :
    (∀ engine', engine.Agrees engine' → ∀ depth mode s t E, E.templates = R →
      s.context = t.context →
        (∀ e, e.determinacy engine.operations R true = true →
          engine.evalExpr depth mode e s E = engine'.evalExpr depth mode e t E ∧
          ∀ f, engine.Builds e f →
            engine.evalFragment depth mode f s E = engine'.evalFragment depth mode f t E) ∧
        ∀ name entry, Keyed.find? name R = some entry → entry.traits.isDeterministic = true →
          engine.runTemplate depth mode entry.body s E =
            engine'.runTemplate depth mode entry.body t E) ∧
    (∀ S (e : Expr), e.determinacy engine.operations S false = true →
      e.determinacy engine.operations S true = true) ∧
    ∀ S e entry, engine.EntryOf S e entry → entry.traits.isInlinable = true →
      entry.traits.isDeterministic = true := by
  refine ⟨fun engine' hagree depth mode s t E hE hst => ⟨fun e he => ⟨?_, fun f hf => ?_⟩,
    fun name entry hfind hdeterministic => ?_⟩, fun S e he => ?_,
    fun S e entry hentry => hentry.isDeterministic_of_isInlinable⟩
  · exact Fixed.eval_eq hR hagree ⟨e, .walked, he⟩ depth mode hE hst
  · exact Fixed.eval_eq hR hagree ⟨e, .built hf, he⟩ depth mode hE hst
  · have hcallable : R.Callable false name := ⟨entry, hfind, hdeterministic⟩
    have hfixed : engine.Fixed R true entry.body.code := hR.fixed_body hcallable hfind
    cases depth with
    | zero => rfl
    | succ depth =>
      rw [runTemplate_succ, runTemplate_succ]
      exact hfixed.eval_eq hR hagree depth _ hE hst
  · exact Expr.Fixed.mono (fun _ _ h => h) (fun _ => rfl) e he

/-- A loop that calls a template with a value, where the template has a section over `true`: in a
loop and without one the outcome is the same, as long as the context is, whatever a method answers
that is not deterministic. -/
theorem context_determines_loop :
    let engine : Engine := ({} : Engine).addMethod (Method.constant "now" (.int 1))
    let engine' : Engine := ({} : Engine).addMethod (Method.constant "now" (.int 2))
    let body : Expr := .call "section" [.literal (.bool true), .path ⟨["x"]⟩]
    let R : Registry := Registry.register []
      (TemplateEntry.interpreted engine.operations [] "P" body)
    let e : Expr := .call "each" [.path ⟨["xs"]⟩,
      .call "partial" [.text "P", .named "x" (.path .this)]]
    let context : Value := .object (.outer 0) [("xs", .array (.outer 1) [.int 1, .int 2])]
    let inside : Scope :=
      { context, frames := [{ context := .null }], position := some { index := .int 3 } }
    engine.Agrees engine' ∧ engine.Grown R ∧ e.determinacy engine.operations R true = true ∧
      engine.evalExpr 2 .sync e inside { templates := R } =
        engine'.evalExpr 2 .sync e (Scope.root context) { templates := R } := by
  intro engine engine' body R e context inside
  have hagree : engine.Agrees engine' := .addMethod (.refl {}) rfl rfl rfl
  have hR : engine.Grown R := .register .empty rfl (fun _ _ h => h) (.interpreted "P")
  have he : e.determinacy engine.operations R true = true := rfl
  have heval := (((context_determines engine hR).1 engine' hagree 2 .sync inside
    (Scope.root context) { templates := R } rfl rfl).1 e he).1
  exact ⟨hagree, hR, he, heval⟩

end Engine

end Stencil
