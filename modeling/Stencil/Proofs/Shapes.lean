import Stencil.Proofs.Asynchrony
import Stencil.Proofs.Determinism
import Stencil.Proofs.Rejections

/-!
# Shapes

Whether something has to be awaited is asked of an expression, operation by operation; of a
fragment, part by part; and of every call when it runs. The answers agree as far as they have to. An
expression that is never awaited is built into a fragment that is never awaited, and one that can be
tried without awaiting into a fragment that can be. A fragment that is never awaited always ends,
does not fail for want of being awaited, and gives the same when it is awaited all the same. A
fragment that has to be awaited is refused where nothing is, before any of its parts is evaluated.

The answers for fragments tell less about their expressions: a folded call is a constant, and what
it has been built from may call templates.

## Main results

* `Engine.BuildsIn.concludes`: what is never awaited ends, and not for want of being awaited.
* `Engine.refused_of_build`: what has to be awaited is refused before anything is evaluated.
* `Engine.shape_sound`: the answers for expressions, for fragments and for runs agree.
* `Engine.methodsSettle_builtin`: no method that an engine starts with answers that something has to
  be awaited.
-/

namespace Stencil

/-! ### Fragments that are never awaited -/

namespace Fragment

variable {f : Fragment}

/-- What runs without awaiting has no note of being awaited. -/
theorem awaited?_of_isSync (h : f.isSync = true) : f.awaited? = none := by
  cases f with
  | awaiting operation inner => cases h
  | _ => rfl

/-- What is never awaited calls no template, since templates may be. -/
theorem layer_ne_template_of_isSync (h : f.isSync = true) (mode : Mode) (name : Fragment)
    (named : List (String × Fragment)) : f.layer mode ≠ .template name named := by
  intro hl
  cases f with
  | template name' named' =>
    have hdual := (Shape.max_le_iff.mp (isSync_iff.mp h)).2
    exact absurd hdual (by decide)
  | method m args =>
    unfold layer at hl
    split at hl <;> cases hl
  | awaiting operation inner => cases h
  | _ => cases hl

/-- The parts of what is never awaited are never awaited. -/
theorem isSync_of_mem_parts (h : f.isSync = true) {mode : Mode} {g : Fragment}
    (hg : g ∈ (f.layer mode).parts) : g.isSync = true :=
  isSync_iff.mpr (shape_le_of_mem_parts (mem_parts_of_layer (awaited?_of_isSync h) hg)
    (isSync_iff.mp h))

end Fragment

/-- Computations that end with any effects, and do not fail for want of being awaited. -/
def Conduct.concluding : Conduct where
  Holds m := ∀ E, ∃ r E', m E = some (r, E') ∧ ∀ err, r = .error err → ¬err.Awaits
  pure a E := ⟨_, _, rfl, nofun⟩
  bind := by
    intro α β m k hm hk E
    obtain ⟨r, E₁, hrun, hr⟩ := hm E
    rw [EvalM.bind_apply, hrun]
    cases r with
    | error err =>
      refine ⟨_, _, rfl, ?_⟩
      rintro _ ⟨⟩
      exact hr err rfl
    | ok a => exact hk a E₁
  settle v E := ⟨_, _, rfl, nofun⟩

namespace Conduct

/-- A result that does not fail for want of being awaited concludes. -/
theorem concluding_ofExcept {α : Type} {result : Except Error α}
    (h : ∀ err, result = .error err → ¬err.Awaits) :
    concluding.Holds (EvalM.ofExcept result) :=
  fun _ => ⟨_, _, rfl, h⟩

/-- A call of a method that settles concludes. -/
theorem concluding_call {m : Method} (h : m.Settles) (args : Arguments) :
    concluding.Holds (m.call args) :=
  call args (fun _ _ => ⟨_, _, rfl, nofun⟩) (concluding_ofExcept (h args))

end Conduct

namespace Engine

variable {engine : Engine} {e : Expr} {f : Fragment}

/-- What is never awaited ends, and not for want of being awaited. -/
theorem BuildsIn.concludes (hf : engine.Builds e f) (hmethods : engine.MethodsSettle)
    (hsync : f.isSync = true) (depth : Nat) (s : Scope) :
    Conduct.concluding.Holds ((Code.built f).eval (engine.host depth .awaited) s) := by
  have hbuilt : BuiltOn (· = engine) (.built f) := ⟨engine, rfl, e, hf⟩
  refine Code.conduct (M := fun c =>
    BuiltOn (· = engine) c ∧ ∃ f, c = .built f ∧ f.isSync = true) ?_ _ ⟨hbuilt, f, rfl, hsync⟩ s
  rintro _ ⟨hc, f, rfl, hsync⟩
  refine ⟨⟨fun err hl => ?_, fun m parts hl => ?_, fun name named hl => ?_,
    fun name entry _ key => ?_⟩, fun part hpart => ⟨hc.part hpart, ?_⟩⟩
  · exact absurd (Layer.of_map_refused hl) (f.layer_awaited_ne_refused err)
  · obtain ⟨_, rfl, name, hm⟩ := hc.method rfl hl
    exact Conduct.concluding_call (hmethods name m hm)
  · obtain ⟨_, _, hl⟩ := Layer.of_map_template hl
    exact absurd hl (f.layer_ne_template_of_isSync hsync _ _ _)
  · exact fun E => ⟨_, _, rfl, nofun⟩
  · rw [Code.layer, Layer.parts_map] at hpart
    obtain ⟨g, hg, rfl⟩ := List.mem_map.mp hpart
    exact ⟨g, rfl, f.isSync_of_mem_parts hsync hg⟩

/-! ### Fragments that have to be awaited -/

/-- What has to be awaited is refused where nothing is, before anything is evaluated. It is refused
for the first operation of its expression that has to be awaited, or is unknown. -/
theorem refused_of_build {depth₀ : Nat} {E₀ E₁ : Effects}
    (hbuild : engine.build depth₀ e E₀ = some (.ok f, E₁)) (hshape : f.supportsSync = false)
    (depth : Nat) (s : Scope) (E : Effects) :
    ∃ name, e.firstAsync? engine.operations = some name ∧
      engine.evalFragment depth .sync f s E = some (.error (.awaitRequired name), E) := by
  have hasync : f.shape = .async := by simpa [Fragment.supportsSync] using hshape
  obtain ⟨name, hfirst, hawaited⟩ := build_awaited? depth₀ hbuild hasync
  cases f with
  | awaiting operation inner =>
    obtain rfl := Option.some.inj hawaited
    exact ⟨operation, hfirst, rfl⟩
  | _ => cases hawaited

/-! ### Shapes -/

/-- Shapes can be relied on, whatever has been folded and whatever is registered: an expression that
is never awaited, or can be tried without awaiting, is built into such a fragment; a fragment that
is never awaited ends alike in both modes, and not for want of being awaited; a fragment that has to
be awaited is refused where nothing is, and nothing of it is evaluated. -/
theorem shape_sound (hmethods : engine.MethodsSettle) {depth₀ : Nat} {E₀ E₁ : Effects}
    (hbuild : engine.build depth₀ e E₀ = some (.ok f, E₁)) :
    (e.isSync engine.operations = true → f.isSync = true) ∧
    (e.firstAsync? engine.operations = none → f.supportsSync = true) ∧
    (f.isSync = true → ∀ depth s E,
      (∃ r E', engine.evalFragment depth .sync f s E = some (r, E') ∧
        ∀ name, r ≠ .error (.awaitRequired name)) ∧
      engine.evalFragment depth .awaited f s E = engine.evalFragment depth .sync f s E) ∧
    (f.supportsSync = false → ∀ depth s E, ∃ name,
      e.firstAsync? engine.operations = some name ∧
      engine.evalFragment depth .sync f s E = some (.error (.awaitRequired name), E)) := by
  have hf : engine.Builds e f := ⟨depth₀, E₀, E₁, trivial, hbuild⟩
  refine ⟨fun hsync => ?_, fun hfirst => ?_, fun hsync depth s E => ?_, fun hshape => ?_⟩
  · exact Fragment.isSync_iff.mpr
      (hf.shape_le foldKeeps_true e f (Expr.callsWithin_of_isSync hsync))
  · have hle := hf.shape_le_dual foldKeeps_true e f (Expr.methodsSync_of_firstAsync? hfirst)
    simpa [Fragment.supportsSync] using Shape.le_dual_iff.mp hle
  · have hmodes : engine.evalFragment depth .awaited f s E =
        engine.evalFragment depth .sync f s E :=
      (congrFun (congrFun (Fragment.eval_of_isSync _ hsync) s) E).symm
    obtain ⟨r, E', hrun, hr⟩ := hf.concludes hmethods hsync depth s E
    refine ⟨⟨r, E', hmodes.symm.trans hrun, ?_⟩, hmodes⟩
    rintro name rfl
    exact hr _ rfl ⟨name, rfl⟩
  · exact refused_of_build hbuild hshape

end Engine

/-! ### Methods that settle -/

namespace Operations

/-- Pure methods settle. -/
theorem settles_pure (names : List String) (f : Arguments → Value) :
    (pure names f).Methods Method.Settles :=
  methods_pure (fun _ => by rintro args err ⟨⟩) names

/-- A method that takes a text complains of other values, and of nothing else. -/
theorem settles_onText (name : String) (f : String → Arguments → Value) :
    (partialMethod name (Builtin.onText name f)).Methods Method.Settles := by
  refine methods_singleton ?_
  rintro args err herr ⟨operation, rfl⟩
  dsimp only [Builtin.onText] at herr
  split at herr <;> cases herr

/-- The methods on data settle. -/
theorem settles_data : data.Methods Method.Settles := by
  have hlog : Methods Method.Settles [("log", .method { name := "log", run := Builtin.log })] :=
    methods_singleton (by rintro args err ⟨⟩)
  unfold data
  refine Methods.append ?_ hlog
  repeat' apply Methods.append
  all_goals
    first
    | exact settles_pure _ _
    | exact settles_onText _ _

/-- The arithmetic methods settle. -/
theorem settles_arithmetic : arithmetic.Methods Method.Settles := by
  unfold arithmetic
  repeat' apply Methods.append
  all_goals exact settles_pure _ _

/-- No method that every engine starts with answers that something has to be awaited. -/
theorem settles_builtin : builtin.Methods Method.Settles :=
  (methods_control.append settles_data).append settles_arithmetic

end Operations

namespace Engine

/-- No method that an engine starts with answers that something has to be awaited. -/
theorem methodsSettle_builtin (settings : Settings) :
    ({ settings := settings } : Engine).MethodsSettle :=
  fun name m hm => Operations.settles_builtin (name, .method m) (Keyed.mem_of_find? hm) m rfl

/-- The methods of an engine go on to settle with a further one that does. -/
theorem MethodsSettle.addMethod {engine : Engine} (h : engine.MethodsSettle) {m : Method}
    (hm : m.Settles) : (engine.addMethod m).MethodsSettle := by
  intro name found hfind
  by_cases hname : name = m.name
  · rw [hname, Engine.addMethod, Keyed.find?_insert_self] at hfind
    cases hfind
    exact hm
  · rw [Engine.addMethod, Keyed.find?_insert_ne hname] at hfind
    exact h name found hfind

/-- A call that logs is never awaited. With a method that has to be awaited beside it, it is refused
before it logs. -/
theorem shape_sound_later :
    let engine := ({} : Engine).addMethod
      { Method.constant "later" (.string "z") with isAsync := true }
    let log : Expr := .call "log" [.literal (.int 1)]
    ∃ f g E₁ E₂,
      engine.build 0 log {} = some (.ok f, E₁) ∧
      engine.build 0 (.call "cat" [log, .call "later" []]) {} = some (.ok g, E₂) ∧
      f.isSync = true ∧
      engine.evalFragment 0 .awaited f (Scope.root .null) {} =
        engine.evalFragment 0 .sync f (Scope.root .null) {} ∧
      engine.evalFragment 0 .sync g (Scope.root .null) {} =
        some (.error (.awaitRequired "later"), {}) := by
  intro engine log
  have hlater : { Method.constant "later" (.string "z") with isAsync := true }.Settles := by
    rintro args err ⟨⟩
  have hmethods : engine.MethodsSettle := (methodsSettle_builtin {}).addMethod hlater
  obtain ⟨f, E₁, hf⟩ : ∃ f E₁, engine.build 0 log {} = some (.ok f, E₁) := ⟨_, _, rfl⟩
  obtain ⟨g, E₂, hg, hshape⟩ : ∃ g E₂,
      engine.build 0 (.call "cat" [log, .call "later" []]) {} = some (.ok g, E₂) ∧
        g.supportsSync = false := ⟨_, _, rfl, rfl⟩
  obtain ⟨hsync, -, hruns, -⟩ := shape_sound hmethods hf
  obtain ⟨-, -, -, hrefused⟩ := shape_sound hmethods hg
  refine ⟨f, g, E₁, E₂, hf, hg, hsync rfl, (hruns (hsync rfl) 0 _ _).2, ?_⟩
  obtain ⟨name, hname, hrun⟩ := hrefused hshape 0 (Scope.root .null) {}
  obtain rfl : "later" = name := Option.some.inj hname
  exact hrun

end Engine

end Stencil
