import Stencil.Proofs.Built

/-!
# Code

What a template runs is an expression or a fragment, and both are evaluated layer by layer. Here
they are taken together as code, so that a relation between the code of two evaluations, as long as
it passes from layers to their parts, makes the one match the other. The relation may be equality,
when the two differ in how deep their calls may nest or in whether they are awaited; it may relate
a fragment to the expression that it was built from.

## Main results

* `Code.paired`: code that is related layer by layer matches.
* `Engine.eval_mono`: what has an outcome keeps it when calls may nest deeper.
-/

namespace Stencil

open Simulation (Matches exact)

/-- What a template runs. -/
inductive Code where
  | walked (e : Expr)
  | built (f : Fragment)

/-- What code is run with. -/
structure Host where
  operations : Operations
  mode : Mode
  unroll : Bool
  run : Mode → TemplateBody → Lazy

/-- How the host calls templates. -/
def Host.call (host : Host) : TemplateBody → Lazy :=
  host.run host.mode

namespace Code

/-- Evaluates code. -/
def eval (host : Host) : Code → Lazy
  | walked e => e.eval { operations := host.operations, mode := host.mode, run := host.run }
  | built f => f.eval { mode := host.mode, unroll := host.unroll, run := host.run }

/-- The layer of code. -/
def layer (operations : Operations) (mode : Mode) : Code → Layer Code
  | walked e => (e.layer operations mode).map walked
  | built f => (f.layer mode).map built

/-- Code is evaluated layer by layer. -/
theorem eval_eq_run (host : Host) (c : Code) :
    c.eval host = (c.layer host.operations host.mode).run host.call (eval host) := by
  cases c with
  | walked e =>
    rw [layer, Layer.run_map]
    exact Expr.eval_eq_run _ e
  | built f =>
    rw [layer, Layer.run_map]
    exact Fragment.eval_eq_run _ f

/-- A definition makes the entry of a body that is walked with the operations, or of one that has
been built. -/
theorem exists_define {operations : Operations} {mode : Mode} {c name : Code} {entry : EntryMaker}
    (h : c.layer operations mode = .define name entry) :
    (∃ body, entry = fun R key => TemplateEntry.interpreted operations R key body) ∨
      ∃ body traits, entry = fun _ key => TemplateEntry.defined key body traits := by
  cases c with
  | walked e =>
    obtain ⟨_, hl⟩ := Layer.of_map_define h
    obtain ⟨body, -, hentry⟩ := Expr.exists_define hl
    exact .inl ⟨body, hentry⟩
  | built f =>
    obtain ⟨_, hl⟩ := Layer.of_map_define h
    exact .inr (Fragment.exists_define hl)

/-- A size that shrinks from code to the parts of its layer. -/
noncomputable def size : Code → Nat
  | walked e => e.size
  | built f => sizeOf f

/-- The parts of code are smaller than the code. -/
theorem size_lt {operations : Operations} {mode : Mode} {c part : Code}
    (h : part ∈ (c.layer operations mode).parts) : part.size < c.size := by
  cases c with
  | walked e =>
    rw [layer, Layer.parts_map] at h
    obtain ⟨g, hg, rfl⟩ := List.mem_map.mp h
    exact Expr.size_lt hg
  | built f =>
    rw [layer, Layer.parts_map] at h
    obtain ⟨g, hg, rfl⟩ := List.mem_map.mp h
    exact Fragment.sizeOf_lt hg

/-- What holds of code as soon as it holds of the parts of its layer holds of all code. -/
theorem induction (operations : Operations) (mode : Mode) {P : Code → Prop}
    (step : ∀ c, (∀ part ∈ (c.layer operations mode).parts, P part) → P c) : ∀ c, P c := fun c =>
  (measure size).wf.induction c fun c ih => step c fun part h => ih part (size_lt h)

/-- Code that is related layer by layer matches at scopes that look alike. Where the relation does
not pass to the parts, the two have to match in another way. -/
theorem paired {sim : Simulation} {host host' : Host} {pairing : Pairing} {M : Code → Code → Prop}
    (common : sim.Common host.call host'.call pairing)
    (step : ∀ c d, M c d →
      (c.layer host.operations host.mode).Rel pairing M (d.layer host'.operations host'.mode) ∨
        ∀ s t, s.Alike sim.marks t → sim.Paired s t (c.eval host) (d.eval host')) :
    ∀ c d, M c d → ∀ s t, s.Alike sim.marks t → sim.Paired s t (c.eval host) (d.eval host') := by
  intro c
  induction c using induction host.operations host.mode with
  | step c ih =>
    intro d hcd s t hst
    rcases step c d hcd with hlayer | hpaired
    · rw [eval_eq_run, eval_eq_run]
      refine Layer.Rel.paired (hlayer.weaken id (fun _ _ => id) (fun _ _ _ _ => id) ?_) common
        (fun _ _ h => h) hst
      exact fun part hpart part' hM => ih part hpart part' hM
    · exact hpaired s t hst

end Code

/-! ### Running templates -/

/-- The code of the body of a template. -/
def TemplateBody.code : TemplateBody → Code
  | .compiled f => .built f
  | .interpreted e _ => .walked e

/-- The mode that the body of a template is run in: one that never awaits is run without. -/
def TemplateBody.mode (mode : Mode) : TemplateBody → Mode
  | .compiled _ => mode
  | .interpreted _ isSync => if isSync then .sync else mode

/-- Without awaiting, bodies are run without awaiting. -/
theorem TemplateBody.mode_sync (body : TemplateBody) : body.mode .sync = .sync := by
  cases body with
  | compiled f => rfl
  | interpreted e isSync => exact ite_self _

namespace Engine

/-- What the engine runs code with. -/
def host (engine : Engine) (depth : Nat) (mode : Mode) : Host where
  operations := engine.operations
  mode := mode
  unroll := engine.settings.unroll
  run := engine.runTemplate depth

/-- With depth to go, a template runs the code of its body. -/
theorem runTemplate_succ (engine : Engine) (depth : Nat) (mode : Mode) (body : TemplateBody) :
    engine.runTemplate (depth + 1) mode body =
      body.code.eval (engine.host depth (body.mode mode)) := by
  cases body <;> rfl

end Engine

/-! ### The same code -/

/-- A layer is related to itself. -/
theorem Layer.Rel.self {α : Type} {pairing : Pairing} (l : Layer α)
    (htemplates : ∀ name named, l = .template name named → pairing.templates)
    (hmethods : ∀ m args, l = .method m args → pairing.methods m m)
    (hentries : ∀ name entry, l = .define name entry → pairing.entries entry entry) :
    l.Rel pairing Eq l := by
  have hlist : ∀ as : List α, List.Forall₂ Eq as as := fun as =>
    List.forall₂_same.mpr fun _ _ => rfl
  have hnamed : ∀ {κ : Type} (as : List (κ × α)), List.Forall₂ (NamedRel Eq) as as := fun as =>
    List.forall₂_same.mpr fun _ _ => ⟨rfl, rfl⟩
  cases l with
  | value v => exact .value v
  | path p => exact .path p
  | lookup p => exact .lookup p
  | position r => exact .position r
  | form f ps => exact .form f (hlist ps)
  | loop kind params selector body branch => exact .loop kind params rfl rfl rfl
  | context params named v body =>
    refine .context params (hnamed named) ?_ rfl
    cases v with
    | none => exact .none
    | some v => exact .some rfl
  | template name named => exact .template (htemplates _ _ rfl) rfl (hnamed named)
  | define name entry => exact .define rfl (hentries _ _ rfl)
  | method m args => exact .method (hmethods _ _ rfl) (hnamed args)
  | refused err => exact .refused err

/-- The same methods and the same definitions. -/
def Pairing.same : Pairing where
  templates := True
  methods := Eq
  entries := Eq

/-- A layer is related to itself over the same methods and definitions. -/
theorem Layer.Rel.refl {α : Type} (l : Layer α) : l.Rel .same Eq l :=
  .self l (fun _ _ _ => trivial) (fun _ _ _ => rfl) fun _ _ _ => rfl

/-- A layer is related to what its parts are changed to. -/
theorem Layer.Rel.map_right {α β : Type} (f : α → β) (l : Layer α) :
    l.Rel .same (fun a b => b = f a) (l.map f) := by
  have h : (l.map id).Rel .same (fun a b => b = f a) (l.map f) :=
    (refl l).transfer id (fun _ _ => id) (fun _ _ _ _ => id) fun _ _ _ hab => congrArg f hab.symm
  rwa [map_id] at h

namespace Simulation

/-- The simulation that asks the second evaluation for the outcome of the first one, if that has an
outcome and does not fail with an excused error. -/
def following (excused : Error → Prop) : Simulation where
  marks := .full
  excused := excused
  hangs := True
  lags := True
  rel := (· = ·)
  hangs_of_lags := id
  settle := exact.settle

variable {excused : Error → Prop} {α : Type} {Q : α → α → Prop}

/-- A computation follows itself. -/
theorem Matches.following_refl (hQ : ∀ a, Q a a) (m : EvalM α) :
    (following excused).Matches Q m m := by
  rintro E F rfl
  match m E with
  | some (.ok a, E') => exact .ok (hQ a) rfl
  | some (.error err, E') => exact .error rfl
  | none => exact .hang trivial

/-- The outcome of the first evaluation is that of the second one, unless it is excused. -/
theorem Matches.follow {m n : EvalM α} (h : (following excused).Matches Q m n)
    (hQ : ∀ a b, Q a b → a = b) {E E' : Effects} {r : Except Error α} (hm : m E = some (r, E'))
    (hr : ∀ err, r = .error err → ¬excused err) : n E = some (r, E') := by
  have hjoint := h (rfl : E = E)
  rw [hm] at hjoint
  generalize n E = y at hjoint ⊢
  cases hjoint with
  | ok hab hrel =>
    obtain rfl := hQ _ _ hab
    obtain rfl : E' = _ := hrel
    rfl
  | error hrel =>
    obtain rfl : E' = _ := hrel
    rfl
  | excused herr => exact absurd herr (hr _ rfl)
  | lead h => exact h.elim

/-- Two evaluations of the same code have the same templates to call. -/
theorem following_common {call call' : TemplateBody → Lazy}
    (hcall : ∀ body s, (following excused).Paired s s (call body) (call' body)) :
    (following excused).Common call call' .same where
  calls := by
    rintro - E F rfl key
    cases E.templates.get key with
    | error err => exact .error err
    | ok entry =>
      refine .ok fun s t v w hst hvw => ?_
      obtain rfl := Scope.alike_full.mp hst
      obtain rfl := Value.alike_full.mp hvw
      exact hcall _ _
  methods := by
    rintro m _ rfl args args' hargs
    obtain rfl := Arguments.alike_full.mp hargs
    exact .following_refl Value.Alike.refl _
  entries := by
    rintro entry _ rfl E F rfl key
    rfl

end Simulation

/-! ### Deeper runs -/

namespace Engine

open Simulation (following)

/-- Code that runs with the same templates to call has the same outcome. -/
theorem paired_same {excused : Error → Prop} (host host' : Host)
    (hoperations : host.operations = host'.operations) (hmode : host.mode = host'.mode)
    (hcall : ∀ body s, (following excused).Paired s s (host.call body) (host'.call body))
    (c : Code) (s : Scope) : (following excused).Paired s s (c.eval host) (c.eval host') := by
  refine Code.paired (M := Eq) (Simulation.following_common hcall) ?_ _ _ rfl s s rfl
  rintro c _ rfl
  rw [hoperations, hmode]
  exact .inl (.refl _)

/-- What a template does is followed with more depth. -/
theorem runTemplate_paired_le (engine : Engine) {depth depth' : Nat} (h : depth ≤ depth')
    (mode : Mode) (body : TemplateBody) (s : Scope) :
    (following fun _ => False).Paired s s (engine.runTemplate depth mode body)
      (engine.runTemplate depth' mode body) := by
  induction depth generalizing depth' mode body s with
  | zero =>
    rintro E F rfl
    rw [runTemplate_zero, EvalM.run_tooDeep]
    cases engine.runTemplate depth' mode body s E with
    | none => exact .hang trivial
    | some outcome => exact .lag trivial
  | succ depth ih =>
    obtain ⟨depth', rfl⟩ := Nat.exists_eq_add_one_of_ne_zero (Nat.ne_zero_of_lt h)
    rw [runTemplate_succ, runTemplate_succ]
    exact paired_same (engine.host depth (body.mode mode)) (engine.host depth' (body.mode mode))
      rfl rfl (fun body s => ih (Nat.le_of_succ_le_succ h) _ body s) _ s

/-- A template that has an outcome keeps it when calls may nest deeper. -/
theorem runTemplate_mono (engine : Engine) {depth depth' : Nat} (h : depth ≤ depth') {mode : Mode}
    {body : TemplateBody} {s : Scope} {E E' : Effects} {r : Except Error Value}
    (hrun : engine.runTemplate depth mode body s E = some (r, E')) :
    engine.runTemplate depth' mode body s E = some (r, E') :=
  Matches.follow (engine.runTemplate_paired_le h mode body s) (fun _ _ => Value.alike_full.mp) hrun
    fun _ _ => id

/-- What has an outcome keeps it when calls may nest deeper. -/
theorem eval_mono (engine : Engine) {depth depth' : Nat} (h : depth ≤ depth') {mode : Mode}
    {c : Code} {s : Scope} {E E' : Effects} {r : Except Error Value}
    (heval : c.eval (engine.host depth mode) s E = some (r, E')) :
    c.eval (engine.host depth' mode) s E = some (r, E') := by
  have hpaired := paired_same (engine.host depth mode) (engine.host depth' mode) rfl rfl
    (fun body s => engine.runTemplate_paired_le h mode body s) c s
  exact Matches.follow hpaired (fun _ _ => Value.alike_full.mp) heval fun _ _ => id

end Engine

end Stencil
