import Stencil.Proofs.Code

/-!
# Awaiting

Code may be run without awaiting anything, and may be awaited. What can be run without awaiting has
the same outcome when it is awaited: the same value or failure, the same lines, and the same
templates. Only what fails because something has to be awaited may go on when it is.

## Main results

* `Code.layer_sync`: to await nothing refuses a layer or leaves it as it is.
* `sync_outcome_awaited`: an outcome that nothing had to be awaited for is the outcome when
  everything is.
-/

namespace Stencil

open Simulation (Matches following)

/-- The failure of something that has to be awaited. -/
def Error.Awaits (err : Error) : Prop :=
  ∃ name, err = .awaitRequired name

/-- To await nothing refuses the layer of an expression or leaves it as it is. -/
theorem Expr.layer_sync (operations : Operations) (mode : Mode) : ∀ e : Expr,
    e.layer operations .sync = e.layer operations mode ∨
      ∃ name, e.layer operations .sync = .refused (.awaitRequired name)
  | .literal _ | .path _ => .inl rfl
  | .named _ value => layer_sync operations mode value
  | .call operation args => by
    unfold layer
    cases operations.get operation with
    | error err => exact .inl rfl
    | ok op =>
      cases op with
      | method m =>
        cases hm : m.isAsync with
        | false => exact .inl (by simp [Operation.layer, hm])
        | true => exact .inr ⟨m.name, by simp [Operation.layer, hm]⟩
      | _ => exact .inl rfl

/-- To await nothing refuses the layer of a fragment or leaves it as it is. -/
theorem Fragment.layer_sync (mode : Mode) (f : Fragment) :
    f.layer .sync = f.layer mode ∨ ∃ name, f.layer .sync = .refused (.awaitRequired name) := by
  cases f with
  | method m args =>
    cases hm : m.isAsync with
    | false => exact .inl (by simp [layer, hm])
    | true => exact .inr ⟨m.name, by simp [layer, hm]⟩
  | awaiting operation inner => exact .inr ⟨operation, rfl⟩
  | _ => exact .inl rfl

/-- To await nothing refuses a layer or leaves it as it is. -/
theorem Code.layer_sync (operations : Operations) (mode : Mode) (c : Code) :
    c.layer operations .sync = c.layer operations mode ∨
      ∃ name, c.layer operations .sync = .refused (.awaitRequired name) := by
  cases c with
  | walked e =>
    refine (e.layer_sync operations mode).imp (congrArg (Layer.map walked)) ?_
    rintro ⟨name, h⟩
    exact ⟨name, congrArg (Layer.map walked) h⟩
  | built f =>
    refine (f.layer_sync mode).imp (congrArg (Layer.map built)) ?_
    rintro ⟨name, h⟩
    exact ⟨name, congrArg (Layer.map built) h⟩

/-- Code that is run without awaiting anything is followed by the code that is run in any mode, as
soon as the templates that it calls are. -/
theorem Code.paired_awaited (host host' : Host) (hoperations : host.operations = host'.operations)
    (hmode : host.mode = .sync)
    (hcall : ∀ body s, (following Error.Awaits).Paired s s (host.call body) (host'.call body))
    (c : Code) (s : Scope) :
    (following Error.Awaits).Paired s s (c.eval host) (c.eval host') := by
  refine Code.paired (M := Eq) (Simulation.following_common hcall) ?_ _ _ rfl s s rfl
  rintro c _ rfl
  rw [hmode]
  rcases c.layer_sync host.operations host'.mode with hlayer | ⟨name, hlayer⟩
  · rw [hlayer, hoperations]
    exact .inl (.refl _)
  · refine .inr fun s t _ => ?_
    rw [eval_eq_run, hmode, hlayer]
    exact Matches.excuse (show Error.Awaits _ from ⟨name, rfl⟩) _

namespace Engine

/-- Templates that are run without awaiting anything are followed by those that are run in any
mode. -/
theorem runTemplate_paired_awaited (engine : Engine) (depth : Nat) (mode : Mode)
    (body : TemplateBody) (s : Scope) :
    (following Error.Awaits).Paired s s (engine.runTemplate depth .sync body)
      (engine.runTemplate depth mode body) := by
  induction depth generalizing mode body s with
  | zero =>
    rintro E F rfl
    exact .hang trivial
  | succ depth ih =>
    rw [runTemplate_succ, runTemplate_succ, body.mode_sync]
    exact Code.paired_awaited (engine.host depth .sync) (engine.host depth (body.mode mode)) rfl rfl
      (fun body' s => ih (body.mode mode) body' s) _ s

/-- Code that is run without awaiting anything has an outcome, which is no failure to await
something: then it has the same outcome in any mode. -/
theorem eval_awaited (engine : Engine) {depth : Nat} {c : Code} {s : Scope} {E E' : Effects}
    {r : Except Error Value} (h : c.eval (engine.host depth .sync) s E = some (r, E'))
    (hr : ∀ name, r ≠ .error (.awaitRequired name)) (mode : Mode) :
    c.eval (engine.host depth mode) s E = some (r, E') := by
  have hpaired := Code.paired_awaited (engine.host depth .sync) (engine.host depth mode) rfl rfl
    (fun body s => engine.runTemplate_paired_awaited depth mode body s) c s
  refine Matches.follow hpaired (fun _ _ => Value.alike_full.mp) h ?_
  rintro err rfl ⟨name, rfl⟩
  exact hr name rfl

/-- An outcome that nothing had to be awaited for is the outcome when everything is: of an
expression that is walked, and of a fragment. -/
theorem sync_outcome_awaited (engine : Engine) (depth : Nat) (s : Scope) (E : Effects) :
    (∀ e r E', engine.evalExpr depth .sync e s E = some (r, E') →
        (∀ name, r ≠ .error (.awaitRequired name)) →
        engine.evalExpr depth .awaited e s E = some (r, E')) ∧
      ∀ f r E', engine.evalFragment depth .sync f s E = some (r, E') →
        (∀ name, r ≠ .error (.awaitRequired name)) →
        engine.evalFragment depth .awaited f s E = some (r, E') :=
  ⟨fun e _ _ h hr => engine.eval_awaited (c := .walked e) h hr .awaited,
    fun f _ _ h hr => engine.eval_awaited (c := .built f) h hr .awaited⟩

/-- A loop that logs a line in every round, between the definition of a template and its call, has
the same value, lines and templates, walked or built, when it is awaited. -/
theorem sync_outcome_awaited_loop :
    let note := Method.recording "note"
    let engine : Engine :=
      { operations := [("cat", .form .concat), ("each", .loop .each), ("inline", .define),
          ("partial", .template), ("@last", .position .last), ("note", .method note)] }
    let e : Expr := .call "cat" [.call "inline" [.text "Y", .text "y"],
      .call "each" [.path ⟨["items"]⟩, .call "note" [.call "@last" []]],
      .call "partial" [.text "Y"]]
    let f : Fragment := .form .concat
      [.define (.const (.string "Y")) (.const (.string "y")) ⟨true, true, true⟩,
        .loop .each [] (.path ⟨["items"]⟩) (.method note [(none, .position .last)])
          (.const (.string "")),
        .template (.const (.string "Y")) []]
    let s := Scope.root (.object .new [("items", .array .new [.null, .null])])
    let E : Effects :=
      { templates := [("X", .interpreted engine.operations [] "X" (.text "x"))], log := ["before"] }
    (∃ E', engine.evalExpr 1 .awaited e s E = some (.ok (.string "falsetruey"), E') ∧
        E'.log = ["before", "note(false)", "note(true)"] ∧ Keyed.keys E'.templates = ["X", "Y"]) ∧
      ∃ E', engine.evalFragment 1 .awaited f s E = some (.ok (.string "falsetruey"), E') ∧
        E'.log = ["before", "note(false)", "note(true)"] ∧
          Keyed.keys E'.templates = ["X", "Y"] := by
  intro note engine e f s E
  obtain ⟨hexpr, hfragment⟩ := sync_outcome_awaited engine 1 s E
  have hr : ∀ name, (.ok (.string "falsetruey") : Except Error Value) ≠
      .error (.awaitRequired name) := nofun
  exact ⟨⟨_, hexpr e _ _ rfl hr, rfl, rfl⟩, ⟨_, hfragment f _ _ rfl hr, rfl, rfl⟩⟩

end Engine

end Stencil
