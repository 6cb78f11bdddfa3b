import Stencil.Proofs.Construction

/-!
# What builders reject

A template is rejected when it is built for operations that are unknown, and for operations that
have to be awaited where nothing is. What is walked is searched from end to end, outer calls first,
and the first such operation is reported. What is compiled is rejected by the build itself: it meets
operations in an order of its own, never looks at arguments that their operation does not build, and
asks for no more than what is evaluated to be run without awaiting, which the bodies of definitions
are not. The two agree exactly where these differences do not show.

## Main results

* `Engine.build_reports`: a build that is rejected reports the first unknown operation that it
  meets.
* `Engine.BuildsIn.shape_async_iff`: what is built has to be awaited exactly when something that is
  evaluated has to be.
* `Engine.builders_agree_iff`: when walking and compiling reject an expression alike.
-/

namespace Stencil

/-- The failure says that an operation is unknown or has to be awaited. -/
def Error.Rejects : Error → Prop
  | .unknownOperation _ | .awaitRequired _ => True
  | _ => False

/-- The first of the operations that is unknown. -/
def Operations.firstUnknown? (operations : Operations) (names : List String) : Option String :=
  names.find? fun name => (Keyed.find? name operations).isNone

namespace Expr

variable (operations : Operations)

/-- The first unknown operation that is met when the expression is built. -/
def firstUnknownMet? (e : Expr) : Option String :=
  operations.firstUnknown? (e.met true operations)

/-- Something that is evaluated when the expression is has to be awaited. -/
def suspends (e : Expr) : Bool :=
  (e.met false operations).any fun name =>
    (Keyed.find? name operations).any fun op => !op.supportsSync

end Expr

/-! ### Operations that are unknown -/

/-- Computations that are rejected, if they are, for the first unknown operation that they meet. -/
def Tally.reporting (operations : Operations) : Tally where
  Holds names m := ∀ ⦃E r E'⦄, m E = some (r, E') →
    (∀ a, r = .ok a → operations.firstUnknown? names = none) ∧
      ∀ err, r = .error err → err.Rejects →
        ∃ name, operations.firstUnknown? names = some name ∧ err = .unknownOperation name
  pure := by
    rintro α a E r E' h
    cases h
    exact ⟨fun _ _ => rfl, nofun⟩
  bind := by
    intro α β names names' m k hm hk E r E' h
    unfold Operations.firstUnknown? at *
    rw [EvalM.bind_apply] at h
    rcases hmE : m E with _ | ⟨err | a, E₁⟩ <;> rw [hmE] at h
    · cases h
    · cases h
      refine ⟨nofun, ?_⟩
      rintro _ ⟨⟩ hrejects
      obtain ⟨name, hname, herr⟩ := (hm hmE).2 err rfl hrejects
      exact ⟨name, by rw [List.find?_append, hname]; rfl, herr⟩
    · rw [List.find?_append, (hm hmE).1 a rfl, Option.none_or]
      exact hk a h

namespace Engine

variable {engine : Engine}

/-- Where nothing has to be awaited, no unknown operation is called. -/
theorem firstUnknown?_of_firstAsync? {e : Expr} (h : e.firstAsync? engine.operations = none)
    {names : List String} (hnames : ∀ name ∈ names, name ∈ e.calls.map Prod.fst) :
    engine.operations.firstUnknown? names = none := by
  rw [Operations.firstUnknown?, List.find?_eq_none]
  intro name hname
  obtain ⟨c, hc, rfl⟩ := List.mem_map.mp (hnames name hname)
  obtain ⟨op, hop, -⟩ := Expr.firstOperation?_eq_none.mp h c hc
  simp [hop]

/-- Building admits that unknown operations are reported. -/
theorem reporting_admits (engine : Engine) (depth : Nat) :
    (Tally.reporting engine.operations).Admits engine depth where
  unknown := by
    rintro operation hnone E r E' h
    cases h
    refine ⟨nofun, ?_⟩
    rintro _ ⟨⟩ -
    exact ⟨operation, by simp [Operations.firstUnknown?, hnone], rfl⟩
  known := by
    intro operation names m hknown hm E r E' h
    have hskip : engine.operations.firstUnknown? (operation :: names) =
        engine.operations.firstUnknown? names := by
      rw [Operations.firstUnknown?, List.find?_cons_of_neg, Operations.firstUnknown?]
      rw [Option.isNone_iff_eq_none, ← ne_eq, Option.ne_none_iff_isSome]
      exact hknown
    rw [hskip]
    exact hm h
  misuse := by
    rintro cause E r E' h
    cases h
    exact ⟨nofun, by rintro _ ⟨⟩ ⟨⟩⟩
  mismatch := by
    rintro cause E r E' h
    cases h
    exact ⟨nofun, by rintro _ ⟨⟩ ⟨⟩⟩
  templates := by
    rintro E r E' h
    cases h
    exact ⟨fun _ _ => rfl, nofun⟩
  fold := by
    intro e names m hnames hm E r E' h
    rw [EvalM.bind_apply] at h
    rcases hfold : engine.tryFold depth e E with _ | ⟨folded, E₁⟩ <;> rw [hfold] at h
    · cases h
    · rcases tryFold_cases hfold with ⟨rfl, rfl⟩ | ⟨-, hasync, result, after, -, rfl, rfl⟩
      · exact hm h
      · cases result with
        | error err => exact hm h
        | ok v =>
          cases h
          exact ⟨fun _ _ => firstUnknown?_of_firstAsync? hasync hnames, nofun⟩

/-- A build meets no unknown operation, or is rejected for the first one that it meets, unless it
fails in another way. -/
theorem build_reports (engine : Engine) {depth : Nat} {e : Expr} {E E' : Effects}
    {r : Except Error Fragment} (h : engine.build depth e E = some (r, E')) :
    (∀ f, r = .ok f → e.firstUnknownMet? engine.operations = none) ∧
      ∀ err, r = .error err → err.Rejects →
        ∃ name, e.firstUnknownMet? engine.operations = some name ∧ err = .unknownOperation name :=
  Tally.build (engine.reporting_admits depth) e h

end Engine

/-! ### Operations that have to be awaited -/

/-- What does not have to be awaited is at most dual. -/
theorem Shape.le_dual_iff {shape : Shape} : shape ≤ .dual ↔ shape ≠ .async := by
  cases shape <;> decide

/-- The parts of the outermost layer of a fragment are parts of the fragment. -/
theorem Fragment.mem_parts_of_layer {mode : Mode} {f g : Fragment} (hawaited : f.awaited? = none)
    (hg : g ∈ (f.layer mode).parts) : g ∈ f.parts := by
  cases f with
  | const | path | lookup | position => exact absurd hg List.not_mem_nil
  | form | loop | context | template | define => exact hg
  | method m args =>
    unfold layer at hg
    split at hg
    · exact absurd hg List.not_mem_nil
    · exact hg
  | awaiting operation inner => cases hawaited

/-- A fragment has to be awaited exactly when its method or one of its parts has to be. -/
theorem Fragment.shape_async_iff {f : Fragment} (hawaited : f.awaited? = none) :
    f.shape = .async ↔
      (∃ m args, f.layer .awaited = .method m args ∧ m.isAsync = true) ∨
        ∃ g ∈ (f.layer .awaited).parts, g.shape = .async := by
  constructor
  · intro hshape
    by_contra hnone
    obtain ⟨hmethod, hparts⟩ := not_or.mp hnone
    refine Shape.le_dual_iff.mp (Fragment.shape_le_dual hawaited (fun g hg => ?_) ?_) hshape
    · exact Shape.le_dual_iff.mpr fun h => hparts ⟨g, hg, h⟩
    · exact fun m args hl => Bool.of_not_eq_true fun h => hmethod ⟨m, args, hl, h⟩
  · rintro (⟨m, args, hl, hm⟩ | ⟨g, hg, hshape⟩)
    · cases f with
      | method m' args' =>
        have hlayer : (Fragment.method m' args').layer .awaited = .method m' args' := if_neg nofun
        rw [hlayer] at hl
        cases hl
        unfold shape
        rw [hm]
        rfl
      | awaiting operation inner => cases hawaited
      | _ => cases hl
    · by_contra hne
      have hle := shape_le_of_mem_parts (mem_parts_of_layer hawaited hg) (Shape.le_dual_iff.mpr hne)
      exact Shape.le_dual_iff.mp hle hshape

namespace Expr

variable {operations : Operations}

/-- Something is met in a list exactly if it is met in one of its expressions. -/
theorem any_met_of_parts {es : List Expr} {P : String → Bool} :
    (es.flatMap (met false operations)).any P = true ↔
      ∃ e ∈ es, (e.met false operations).any P = true := by
  simp only [List.any_flatMap, List.any_eq_true (l := es)]

/-- Something that is evaluated has to be awaited exactly when the method that is called or
something in a part has to be. -/
theorem suspends_iff : ∀ e : Expr,
    e.suspends operations = true ↔
      (∃ m args, e.layer operations .awaited = .method m args ∧ m.isAsync = true) ∨
        ∃ part ∈ (e.layer operations .awaited).parts, part.suspends operations = true
  | .literal _ | .path _ => by simp [suspends, met, layer, Layer.parts]
  | .named _ value => suspends_iff value
  | .call operation args => by
    unfold suspends
    cases hop : Keyed.find? operation operations with
    | none =>
      have hlayer : (Expr.call operation args).layer operations .awaited =
          .refused (.unknownOperation operation) := layer_of_find?_none hop
      have hmet : (Expr.call operation args).met false operations = [operation] := by
        unfold met
        rw [hop]
      simp [hlayer, hmet, hop, Layer.parts]
    | some op =>
      have hget : operations.get operation = .ok op := Operations.get_eq_ok.mpr hop
      rw [layer_call hget, met_call false args hget, List.any_cons, Bool.or_eq_true,
        metWithin_eq_parts false fun _ => rfl, any_met_of_parts, hop]
      refine or_congr ?_ Iff.rfl
      cases op with
      | method m =>
        simp [Operation.supportsSync, Operation.layer]
      | _ =>
        refine iff_of_false Bool.false_ne_true ?_
        rintro ⟨m, args', hl, -⟩
        cases Operation.eq_of_layer hl rfl

/-- Where nothing has to be awaited first, nothing suspends. -/
theorem suspends_of_firstAsync? {e : Expr} (h : e.firstAsync? operations = none) :
    e.suspends operations = false := by
  rw [suspends, List.any_eq_false]
  intro name hname
  obtain ⟨c, hc, rfl⟩ := List.mem_map.mp (met_subset false e name hname)
  obtain ⟨op, hop, hsync⟩ := firstOperation?_eq_none.mp h c hc
  rw [hop]
  simpa using hsync

end Expr

namespace Engine

variable {engine : Engine} {Inv : Nat → Effects → Prop}

/-- What is built has to be awaited exactly when something that is evaluated has to be. -/
theorem BuildsIn.shape_async_iff (hfold : FoldKeeps engine Inv) (e : Expr) :
    ∀ f, BuildsIn engine Inv e f →
      (f.shape = .async ↔ e.suspends engine.operations = true) := by
  induction e using Expr.layer_induction engine.operations .awaited with
  | step e ih =>
    intro f hf
    have hlayer : ∀ f, SameLayers engine Inv e f → f.awaited? = none →
        (f.shape = .async ↔ e.suspends engine.operations = true) := by
      intro f hsame hawaited
      have hrel := hsame .awaited
      rw [Fragment.shape_async_iff hawaited, e.suspends_iff]
      refine or_congr ?_ ⟨?_, ?_⟩
      · generalize e.layer engine.operations .awaited = l at hrel
        generalize f.layer .awaited = l' at hrel
        cases hrel with
        | method hm =>
          obtain rfl := hm
          simp
        | _ => exact iff_of_false nofun nofun
      · rintro ⟨g, hg, hshape⟩
        obtain ⟨part, hpart, hbuilt⟩ := hrel.exists_part hg
        exact ⟨part, hpart, (ih part hpart g hbuilt).mp hshape⟩
      · rintro ⟨part, hpart, hsuspends⟩
        obtain ⟨g, hg, hbuilt⟩ := hrel.flip.exists_part hpart
        exact ⟨g, hg, (ih part hpart g hbuilt).mpr hsuspends⟩
    cases hf.assembled hfold with
    | folded h =>
      obtain ⟨depth, E, E', -, htry⟩ := h
      rcases tryFold_cases htry with ⟨hnone, -⟩ | ⟨-, hasync, -⟩
      · cases hnone
      · rw [Expr.suspends_of_firstAsync? hasync]
        exact iff_of_false nofun nofun
    | layered hsame hawaited _ => exact hlayer f hsame hawaited
    | @awaiting f operation hsame hawaited hshape =>
      exact iff_of_true rfl ((hlayer f hsame hawaited).mp hshape)

/-- A fragment that has to be awaited names the first operation of its expression that has to be, or
that is unknown. -/
theorem build_awaited? (depth : Nat) : ∀ {e : Expr} {E E' : Effects} {f : Fragment},
    engine.build depth e E = some (.ok f, E') → f.shape = .async →
      ∃ name, e.firstAsync? engine.operations = some name ∧ f.awaited? = some name
  | .literal _, _, _, _, h, hshape | .path _, _, _, _, h, hshape => by
    cases h
    cases hshape
  | .named _ value, _, _, _, h, hshape => build_awaited? depth (e := value) h hshape
  | .call operation args, E, E', f, h, hshape => by
    have hbuilt : engine.Builds (.call operation args) f := ⟨depth, E, E', trivial, h⟩
    have hsuspends := (hbuilt.shape_async_iff foldKeeps_true _ _).mp hshape
    cases hfirst : (Expr.call operation args).firstAsync? engine.operations with
    | none => exact absurd hsuspends (by rw [Expr.suspends_of_firstAsync? hfirst]; nofun)
    | some name =>
      unfold build at h
      obtain ⟨op, E₁, -, h⟩ := EvalM.bind_eq_ok h
      obtain ⟨folded, E₂, -, h⟩ := EvalM.bind_eq_ok h
      cases folded with
      | some v =>
        cases h
        cases hshape
      | none =>
        obtain ⟨f₀, E₃, -, h⟩ := EvalM.bind_eq_ok h
        cases h
        unfold markAwaiting at hshape ⊢
        split
        · exact ⟨name, rfl, by rw [hfirst]; rfl⟩
        · next hne =>
          rw [if_neg hne] at hshape
          exact absurd hshape hne

/-! ### Builders -/

/-- The failure of a result. -/
def failure? {α : Type} : Except Error α → Option Error
  | .ok _ => none
  | .error err => some err

/-- What a template that is walked is rejected for. -/
def walkedRejection? (engine : Engine) (mode : Mode) (e : Expr) : Option Error :=
  match mode with
  | .sync => (e.firstAsync? engine.operations).map fun name =>
      if Keyed.contains name engine.operations then .awaitRequired name else .unknownOperation name
  | .awaited => (e.firstUnknown? engine.operations).map .unknownOperation

/-- What a template that is compiled is rejected for. -/
def builtRejection? (engine : Engine) (mode : Mode) (e : Expr) : Option Error :=
  match e.firstUnknownMet? engine.operations with
  | some name => some (.unknownOperation name)
  | none =>
    if mode = .sync ∧ e.suspends engine.operations then
      (e.firstAsync? engine.operations).map .awaitRequired
    else none

/-- The check of a walk fails with its rejection. -/
theorem failure?_checkWalk (engine : Engine) (mode : Mode) (e : Expr) :
    failure? (engine.checkWalk mode e) = engine.walkedRejection? mode e := by
  unfold checkWalk walkedRejection?
  cases mode with
  | sync =>
    cases e.firstAsync? engine.operations with
    | none => rfl
    | some name =>
      cases hop : Keyed.find? name engine.operations <;>
        simp only [Operations.get, Keyed.contains, hop, Option.map_some] <;> rfl
  | awaited => cases e.firstUnknown? engine.operations <;> rfl

/-- A template that is walked is rejected for the first operation in its expression that is unknown
or, where nothing is awaited, has to be. -/
theorem buildTemplate_walked {depth : Nat} {mode : Mode} {e : Expr} {E E' : Effects}
    {r : Except Error Template}
    (h : engine.buildTemplate depth ⟨false, mode⟩ e E = some (r, E')) :
    failure? r = engine.walkedRejection? mode e := by
  rw [← failure?_checkWalk]
  unfold buildTemplate at h
  simp only [Bool.false_eq_true, if_false, EvalM.bind_apply, EvalM.ofExcept] at h
  cases hcheck : engine.checkWalk mode e <;> rw [hcheck] at h <;> cases h <;> rfl

/-- A fragment fails its check exactly where it has to be awaited and is not. -/
theorem checkFragment_eq (mode : Mode) (f : Fragment) :
    checkFragment mode f =
      if mode = .sync ∧ f.shape = .async then .error (.awaitRequired (f.awaited?.getD "template"))
      else .ok () := by
  unfold checkFragment Fragment.supportsSync
  cases mode <;> cases f.shape <;> rfl

/-- Fragments are refused only without awaiting. -/
theorem checkFragment_eq_ok {mode : Mode} {f : Fragment} :
    checkFragment mode f = .ok () ↔ (mode = .sync → f.shape ≠ .async) := by
  rw [checkFragment_eq]
  split
  · next h => simp [h]
  · next h => simpa using h

/-- A template that is compiled is rejected for the first unknown operation that its build meets.
Where nothing is awaited it is rejected for the first operation in its expression that has to be, as
soon as something that is evaluated has to be. -/
theorem buildTemplate_built {depth : Nat} {mode : Mode} {e : Expr} {E E' : Effects}
    {r : Except Error Template}
    (h : engine.buildTemplate depth ⟨true, mode⟩ e E = some (r, E'))
    (hr : ∀ err, r = .error err → err.Rejects) :
    failure? r = engine.builtRejection? mode e := by
  unfold buildTemplate at h
  simp only [if_true, EvalM.bind_apply] at h
  rcases hbuild : engine.build depth e E with _ | ⟨err | f, E₁⟩ <;> rw [hbuild] at h
  · cases h
  · cases h
    obtain ⟨name, hname, rfl⟩ := (engine.build_reports hbuild).2 err rfl (hr err rfl)
    unfold builtRejection?
    rw [hname]
    rfl
  · have hknown := (engine.build_reports hbuild).1 f rfl
    have hbuilt : engine.Builds e f := ⟨depth, E, E₁, trivial, hbuild⟩
    have hshape := hbuilt.shape_async_iff foldKeeps_true e f
    simp only [builtRejection?, hknown]
    simp only [EvalM.ofExcept, checkFragment_eq] at h
    by_cases hrefused : mode = .sync ∧ f.shape = .async
    · obtain ⟨name, hfirst, hawaited⟩ := engine.build_awaited? depth hbuild hrefused.2
      rw [if_pos hrefused, hawaited] at h
      rw [if_pos ⟨hrefused.1, hshape.mp hrefused.2⟩, hfirst]
      cases h
      rfl
    · rw [if_neg hrefused] at h
      rw [if_neg fun hs => hrefused ⟨hs.1, hshape.mpr hs.2⟩]
      cases h
      rfl

/-- When walking and compiling reject an expression alike. -/
def BuildersAgree (engine : Engine) (e : Expr) : Mode → Prop
  | .awaited => e.firstUnknown? engine.operations = e.firstUnknownMet? engine.operations
  | .sync => ∀ name, e.firstAsync? engine.operations = some name →
      if Keyed.contains name engine.operations then
        e.firstUnknownMet? engine.operations = none ∧ e.suspends engine.operations = true
      else e.firstUnknownMet? engine.operations = some name

/-- Where nothing has to be awaited first, no unknown operation is met. -/
theorem firstUnknownMet?_of_firstAsync? {e : Expr} (h : e.firstAsync? engine.operations = none) :
    e.firstUnknownMet? engine.operations = none :=
  firstUnknown?_of_firstAsync? h (e.met_subset true)

/-- The rejections are the same exactly when the builders agree. -/
theorem rejections_eq_iff (engine : Engine) (mode : Mode) (e : Expr) :
    engine.walkedRejection? mode e = engine.builtRejection? mode e ↔
      engine.BuildersAgree e mode := by
  unfold walkedRejection? builtRejection? BuildersAgree
  cases mode with
  | awaited =>
    cases e.firstUnknown? engine.operations <;> cases e.firstUnknownMet? engine.operations <;> simp
  | sync =>
    cases hfirst : e.firstAsync? engine.operations with
    | none =>
      rw [firstUnknownMet?_of_firstAsync? hfirst]
      simp
    | some name =>
      simp only [Option.map_some, Option.some.injEq, forall_eq']
      cases Keyed.contains name engine.operations <;>
        cases e.firstUnknownMet? engine.operations <;>
        cases e.suspends engine.operations <;> simp [eq_comm]

/-- An expression is built by walking and by compiling, and the compiling does not fail in any other
way than by a rejection. Both succeed, or both are rejected with the same failure, exactly in these
cases: where everything is awaited, the first unknown operation in the expression is the first one
that the build meets, if there is any; where nothing is awaited, the first operation that is unknown
or has to be awaited, if there is any, is the first unknown one that the build meets, or else it is
known, the build meets no unknown one, and something that is evaluated has to be awaited. -/
theorem builders_agree_iff {mode : Mode} {e : Expr} {depth depth' : Nat} {E E' F F' : Effects}
    {walked built : Except Error Template}
    (hwalked : engine.buildTemplate depth ⟨false, mode⟩ e E = some (walked, E'))
    (hbuilt : engine.buildTemplate depth' ⟨true, mode⟩ e F = some (built, F'))
    (hfails : ∀ err, built = .error err → err.Rejects) :
    failure? walked = failure? built ↔ engine.BuildersAgree e mode := by
  rw [buildTemplate_walked hwalked, buildTemplate_built hbuilt hfails]
  exact engine.rejections_eq_iff mode e

/-- An unknown operation is reported alike when it comes before one that would have to be awaited,
and also when it comes after one that is awaited. -/
theorem builders_agree_iff_later :
    let engine : Engine :=
      { operations := [("cat", .form .concat),
          ("later", .method { Method.constant "later" .null with isAsync := true })] }
    let before : Expr := .call "cat" [.call "unknown" [], .call "later" []]
    let after : Expr := .call "cat" [.call "later" [], .call "unknown" []]
    let rejected : Except Error Template := .error (.unknownOperation "unknown")
    (engine.buildTemplate 0 .interpreted before {} = some (rejected, {}) ∧
        engine.buildTemplate 0 .compiledSync before {} = some (rejected, {}) ∧
        engine.BuildersAgree before .sync) ∧
      engine.buildTemplate 0 .interpretedAsync after {} = some (rejected, {}) ∧
      engine.buildTemplate 0 .compiledAsync after {} = some (rejected, {}) ∧
      engine.BuildersAgree after .awaited := by
  intro engine before after rejected
  have hfails : ∀ err, rejected = .error err → err.Rejects := by
    intro err herr
    obtain rfl : Error.unknownOperation "unknown" = err := Except.error.inj herr
    trivial
  have hbefore : engine.buildTemplate 0 .interpreted before {} = some (rejected, {}) := rfl
  have hbefore' : engine.buildTemplate 0 .compiledSync before {} = some (rejected, {}) := rfl
  have hafter : engine.buildTemplate 0 .interpretedAsync after {} = some (rejected, {}) := rfl
  have hafter' : engine.buildTemplate 0 .compiledAsync after {} = some (rejected, {}) := rfl
  exact ⟨⟨hbefore, hbefore', (builders_agree_iff hbefore hbefore' hfails).mp rfl⟩,
    hafter, hafter', (builders_agree_iff hafter hafter' hfails).mp rfl⟩

/-- An operation that has to be awaited stands before one that is unknown: walking reports the first
one and compiling the second one, although the build fails in no other way than by a rejection. -/
theorem builders_differ :
    let engine : Engine :=
      { operations := [("cat", .form .concat),
          ("later", .method { Method.constant "later" .null with isAsync := true })] }
    let e : Expr := .call "cat" [.call "later" [], .call "unknown" []]
    engine.buildTemplate 0 .interpreted e {} = some (.error (.awaitRequired "later"), {}) ∧
      engine.buildTemplate 0 .compiledSync e {} = some (.error (.unknownOperation "unknown"), {}) ∧
      ¬engine.BuildersAgree e .sync :=
  ⟨rfl, rfl, fun h => nomatch h "later" rfl⟩

end Engine

end Stencil
