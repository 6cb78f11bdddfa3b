import Stencil.Proofs.Plan
import Stencil.Proofs.Replay

/-!
# Definitions

An evaluation may define templates. Here its definitions are put down in a ledger, beside what the
evaluation leads to: each `inline` call that is carried out, in order, with the name that it has
computed and the template that it has made. A template that is called adds its own definitions, and
so does whatever was evaluated before a failure. What is registered afterwards can be read off the
ledger: what was registered before, and under each new name the first template of the ledger.

The ledger is a relation on plans, so that it is not the registry that says what was defined. Every
evaluation that has an outcome has one ledger.

## Main results

* `traced_iff`: code is evaluated exactly as its runs say.
* `Traced.unique`: a run has one ledger, one outcome and one set of effects.
* `Traced.gains`: what is registered after a run.
-/

namespace Stencil

/-- What code does in a scope. -/
def Code.plan (operations : Operations) (mode : Mode) (s : Scope) (c : Code) : Plan Code :=
  (c.layer operations mode).plan s

/-- A plan is carried out with calls of templates nested at most so deep: the effects before, the
definitions that are made, each under the name that was computed for it, the outcome, and the
effects afterwards. -/
inductive Traced (engine : Engine) : Nat → Mode → Plan Code → Effects → Keyed TemplateEntry →
    Except Error Value → Effects → Prop where
  | done {depth mode v E} : Traced engine depth mode (.done v) E [] (.ok v) E
  | fail {depth mode err E} : Traced engine depth mode (.fail err) E [] (.error err) E
  /-- The part is evaluated, and then the rest of the plan is carried out. -/
  | part {depth mode c s next E E₁ E₂ calls more v r}
    (evaluated : Traced engine depth mode (c.plan engine.operations mode s) E calls (.ok v) E₁)
    (rest : Traced engine depth mode (next v) E₁ more r E₂) :
    Traced engine depth mode (.part c s next) E (calls ++ more) r E₂
  /-- The part fails, and the rest of the plan is left out. -/
  | partFails {depth mode c s next E E₁ calls err}
    (evaluated :
      Traced engine depth mode (c.plan engine.operations mode s) E calls (.error err) E₁) :
    Traced engine depth mode (.part c s next) E calls (.error err) E₁
  | settle {depth mode v w next E E₁ E₂ calls r} (settled : EvalM.settle v E = some (.ok w, E₁))
    (rest : Traced engine depth mode (next w) E₁ calls r E₂) :
    Traced engine depth mode (.settle v next) E calls r E₂
  | find {depth mode key entry next E E₁ calls r} (found : E.templates.get key = .ok entry)
    (rest : Traced engine depth mode (next entry) E calls r E₁) :
    Traced engine depth mode (.find key next) E calls r E₁
  | missing {depth mode key err next E} (missing : E.templates.get key = .error err) :
    Traced engine depth mode (.find key next) E [] (.error err) E
  /-- The called template is carried out, with calls nested less deep. -/
  | call {depth mode s E E₁ calls r} {body : TemplateBody}
    (called : Traced engine depth (body.mode mode)
      (body.code.plan engine.operations (body.mode mode) s) E calls r E₁) :
    Traced engine (depth + 1) mode (.call body s) E calls r E₁
  | method {depth mode args E E₁ r} {m : Method} (answered : m.call args E = some (r, E₁)) :
    Traced engine depth mode (.method m args) E [] r E₁
  /-- A definition is made, whether or not the name is free. -/
  | define {depth mode key E} {entry : EntryMaker} :
    Traced engine depth mode (.define entry key) E [(key, entry E.templates key)] (.ok (.string ""))
      { E with templates := E.templates.define (entry E.templates key) }

/-! ### Traces and evaluations -/

section

variable {engine : Engine} {depth : Nat} {mode : Mode}

/-- Code is evaluated by carrying out its plan. -/
theorem Engine.eval_eq_run_plan (engine : Engine) (depth : Nat) (mode : Mode) (c : Code)
    (s : Scope) : c.eval (engine.host depth mode) s =
      (c.plan engine.operations mode s).run (engine.runTemplate depth mode)
        (Code.eval (engine.host depth mode)) := by
  rw [Code.eval_eq_run, Layer.run_eq_plan]
  rfl

/-- What a trace says is what the plan leads to. -/
theorem Traced.run {p : Plan Code} {E E' : Effects} {calls : Keyed TemplateEntry}
    {r : Except Error Value} (h : Traced engine depth mode p E calls r E') :
    p.run (engine.runTemplate depth mode) (Code.eval (engine.host depth mode)) E =
      some (r, E') := by
  induction h with
  | done => rfl
  | fail => rfl
  | part _ _ ih ih' =>
    rw [Plan.run, EvalM.bind_apply, Engine.eval_eq_run_plan, ih]
    exact ih'
  | partFails _ ih => rw [Plan.run, EvalM.bind_apply, Engine.eval_eq_run_plan, ih]
  | settle settled _ ih =>
    rw [Plan.run, EvalM.bind_apply, settled]
    exact ih
  | find found _ ih =>
    rw [Plan.run, EvalM.bind_apply, EvalM.lookup_apply, found]
    exact ih
  | missing missing => rw [Plan.run, EvalM.bind_apply, EvalM.lookup_apply, missing]
  | call _ ih => rw [Plan.run, Engine.runTemplate_succ, Engine.eval_eq_run_plan, ih]
  | method answered => exact answered
  | define => rfl

/-- There is a trace of every evaluation of the code. -/
def Code.HasTrace (engine : Engine) (depth : Nat) (mode : Mode) (c : Code) : Prop :=
  ∀ ⦃s E r E'⦄, c.eval (engine.host depth mode) s E = some (r, E') →
    ∃ calls, Traced engine depth mode (c.plan engine.operations mode s) E calls r E'

/-- There is a trace of a plan as soon as there are traces of its parts and of what it calls. -/
theorem Plan.exists_traced {p : Plan Code} {Q : EntryMaker → Prop}
    (hparts : p.Uses (Code.HasTrace engine depth mode) Q)
    (hcalls : ∀ ⦃body s E r E'⦄, engine.runTemplate depth mode body s E = some (r, E') →
      ∃ calls, Traced engine depth mode (.call body s) E calls r E')
    {E E' : Effects} {r : Except Error Value}
    (h : p.run (engine.runTemplate depth mode) (Code.eval (engine.host depth mode)) E =
      some (r, E')) :
    ∃ calls, Traced engine depth mode p E calls r E' := by
  induction p generalizing E with
  | done v =>
    cases h
    exact ⟨[], .done⟩
  | fail err =>
    cases h
    exact ⟨[], .fail⟩
  | part c s next ih =>
    rw [run, EvalM.bind_apply] at h
    rcases hc : c.eval (engine.host depth mode) s E with _ | ⟨err | v, E₁⟩ <;> rw [hc] at h
    · cases h
    · cases h
      obtain ⟨calls, evaluated⟩ := hparts.1 hc
      exact ⟨calls, .partFails evaluated⟩
    · obtain ⟨calls, evaluated⟩ := hparts.1 hc
      obtain ⟨more, rest⟩ := ih v (hparts.2 v) h
      exact ⟨calls ++ more, .part evaluated rest⟩
  | settle v next ih =>
    obtain ⟨calls, rest⟩ := ih _ (hparts _) h
    exact ⟨calls, .settle rfl rest⟩
  | find key next ih =>
    rw [run, EvalM.bind_apply, EvalM.lookup_apply] at h
    cases hfind : E.templates.get key with
    | error err =>
      rw [hfind] at h
      cases h
      exact ⟨[], .missing hfind⟩
    | ok entry =>
      rw [hfind] at h
      obtain ⟨calls, rest⟩ := ih entry (hparts entry) h
      exact ⟨calls, .find hfind rest⟩
  | call body s => exact hcalls h
  | method m args => exact ⟨[], .method h⟩
  | define entry key =>
    cases h
    exact ⟨_, .define⟩

/-- There are traces of code as soon as there are traces of what it calls. -/
theorem Code.hasTrace_of_calls
    (hcalls : ∀ ⦃body s E r E'⦄, engine.runTemplate depth mode body s E = some (r, E') →
      ∃ calls, Traced engine depth mode (.call body s) E calls r E') (c : Code) :
    c.HasTrace engine depth mode := by
  induction c using Code.induction engine.operations mode with
  | step c ih =>
    intro s E r E' h
    rw [Engine.eval_eq_run_plan] at h
    exact Plan.exists_traced (Q := fun _ => True)
      (Layer.uses_plan ih (fun _ _ _ => trivial) s) hcalls h

/-- There is a trace of every evaluation, however deep its calls may nest. -/
theorem Code.hasTrace (engine : Engine) (depth : Nat) (mode : Mode) (c : Code) :
    c.HasTrace engine depth mode := by
  induction depth generalizing mode c with
  | zero =>
    refine c.hasTrace_of_calls fun body s E r E' h => ?_
    cases h
  | succ depth ih =>
    refine c.hasTrace_of_calls fun body s E r E' h => ?_
    rw [Engine.runTemplate_succ] at h
    obtain ⟨calls, called⟩ := ih (body.mode mode) body.code h
    exact ⟨calls, .call called⟩

/-- Code is evaluated exactly as its traces say. -/
theorem traced_iff {c : Code} {s : Scope} {E E' : Effects} {r : Except Error Value} :
    c.eval (engine.host depth mode) s E = some (r, E') ↔
      ∃ calls, Traced engine depth mode (c.plan engine.operations mode s) E calls r E' := by
  refine ⟨fun h => c.hasTrace engine depth mode h, fun ⟨calls, h⟩ => ?_⟩
  rw [Engine.eval_eq_run_plan]
  exact h.run

/-- A plan that is carried out has one ledger, one outcome and one set of effects afterwards. -/
theorem Traced.unique {p : Plan Code} {E E' E'' : Effects} {calls others : Keyed TemplateEntry}
    {r r' : Except Error Value} (h : Traced engine depth mode p E calls r E')
    (h' : Traced engine depth mode p E others r' E'') : calls = others ∧ r = r' ∧ E' = E'' := by
  induction h generalizing others r' E'' with
  | done | fail | define =>
    cases h'
    exact ⟨rfl, rfl, rfl⟩
  | part _ _ ih ih' =>
    cases h' with
    | part evaluated rest =>
      obtain ⟨rfl, hv, rfl⟩ := ih evaluated
      cases hv
      obtain ⟨rfl, rfl, rfl⟩ := ih' rest
      exact ⟨rfl, rfl, rfl⟩
    | partFails evaluated => cases (ih evaluated).2.1
  | partFails _ ih =>
    cases h' with
    | part evaluated _ => cases (ih evaluated).2.1
    | partFails evaluated => exact ih evaluated
  | settle settled _ ih =>
    cases h' with
    | settle settled' rest =>
      cases settled.symm.trans settled'
      exact ih rest
  | find found _ ih =>
    cases h' with
    | find found' rest =>
      cases found.symm.trans found'
      exact ih rest
    | missing missing => cases found.symm.trans missing
  | missing missing =>
    cases h' with
    | find found _ => cases missing.symm.trans found
    | missing missing' =>
      cases missing.symm.trans missing'
      exact ⟨rfl, rfl, rfl⟩
  | call _ ih =>
    cases h' with
    | call called => exact ih called
  | method answered =>
    cases h' with
    | method answered' =>
      cases answered.symm.trans answered'
      exact ⟨rfl, rfl, rfl⟩

end

/-! ### What is registered afterwards -/

namespace Keyed

variable {α : Type}

/-- The first lists are searched first. -/
theorem find?_append (key : String) (entries more : Keyed α) :
    find? key (entries ++ more) = (find? key entries).or (find? key more) := by
  induction entries with
  | nil => rfl
  | cons entry rest ih =>
    obtain ⟨k, v⟩ := entry
    by_cases h : k = key <;> simp [find?, h, ih]

/-- What is written only where nothing is comes after all that is there. -/
theorem find?_insertNew_eq (key other : String) (value : α) (entries : Keyed α) :
    find? other (insertNew key value entries) =
      (find? other entries).or (find? other [(key, value)]) := by
  by_cases h : other = key
  · subst h
    unfold insertNew contains
    cases hfind : find? other entries with
    | some found => simp [hfind]
    | none => simp [find?]
  · have hnew : find? other [(key, value)] = none := by simp [find?, Ne.symm h]
    rw [hnew, Option.or_none]
    unfold insertNew
    split
    · rfl
    · exact find?_insert_ne h value entries

/-- To erase a key leaves the other keys as they are. -/
theorem find?_erase_ne {key other : String} (h : other ≠ key) (entries : Keyed α) :
    find? other (erase key entries) = find? other entries := by
  induction entries with
  | nil => rfl
  | cons entry rest ih =>
    obtain ⟨k, v⟩ := entry
    by_cases hk : k = key
    · subst hk
      simp [erase, find?, Ne.symm h]
    · simp [erase, find?, hk, ih]

end Keyed

namespace Registry

/-- What is registered afterwards: what was registered before, and under each new name the template
that was defined first. -/
def Gains (R R' : Registry) (calls : Keyed TemplateEntry) : Prop :=
  ∀ name, Keyed.find? name R' = (Keyed.find? name R).or (Keyed.find? name calls)

variable {R R' R'' : Registry} {calls more : Keyed TemplateEntry}

/-- Without calls nothing is gained. -/
theorem Gains.nil (R : Registry) : R.Gains R [] :=
  fun _ => Option.or_none.symm

/-- What is gained is gained one after the other. -/
theorem Gains.append (h : R.Gains R' calls) (h' : R'.Gains R'' more) :
    R.Gains R'' (calls ++ more) := fun name => by
  rw [h' name, h name, Keyed.find?_append, Option.or_assoc]

/-- A definition gains its entry. -/
theorem gains_define (R : Registry) (entry : TemplateEntry) :
    R.Gains (R.define entry) [(entry.name, entry)] := fun name =>
  Keyed.find?_insertNew_eq entry.name name entry R

end Registry

section

variable {engine : Engine} {depth : Nat} {mode : Mode}

/-- Entries are made of the name that they are given. -/
def EntryMaker.KeepsName (entry : EntryMaker) : Prop :=
  ∀ R key, (entry R key).name = key

/-- The plan of code gives each entry that it defines the name that has been computed. -/
theorem Code.plan_keepsName (operations : Operations) (mode : Mode) (c : Code) (s : Scope) :
    (c.plan operations mode s).Uses (fun _ => True) EntryMaker.KeepsName :=
  Layer.uses_plan (fun _ _ => trivial) (fun _ _ h => Code.name_of_define h) s

/-- A method changes no template. -/
theorem Method.call_templates {m : Method} {args : Arguments} {E E' : Effects}
    {r : Except Error Value} (h : m.call args E = some (r, E')) : E'.templates = E.templates := by
  have hkeeps : (Conduct.keeping (· = E.templates) fun _ => True).Holds (m.call args) :=
    Conduct.keeping_call fun _ _ => trivial
  exact (hkeeps rfl h).1

/-- What is registered when a plan has been carried out. -/
theorem Traced.gains {p : Plan Code} {E E' : Effects} {calls : Keyed TemplateEntry}
    {r : Except Error Value} (h : Traced engine depth mode p E calls r E')
    (hp : p.Uses (fun _ => True) EntryMaker.KeepsName) :
    E.templates.Gains E'.templates calls := by
  induction h with
  | done | fail | missing => exact .nil _
  | part _ _ ih ih' => exact (ih (Code.plan_keepsName ..)).append (ih' (hp.2 _))
  | partFails _ ih => exact ih (Code.plan_keepsName ..)
  | settle settled _ ih =>
    cases settled
    exact ih (hp _)
  | find _ _ ih => exact ih (hp _)
  | call _ ih => exact ih (Code.plan_keepsName ..)
  | method answered =>
    rw [Method.call_templates answered]
    exact .nil _
  | @define _ _ key E entry =>
    have hgains := E.templates.gains_define (entry E.templates key)
    rwa [hp E.templates key] at hgains

/-- The ledger of an evaluation, and what is registered afterwards. -/
theorem Code.gains_of_eval {c : Code} {s : Scope} {E E' : Effects} {r : Except Error Value}
    (h : c.eval (engine.host depth mode) s E = some (r, E')) :
    ∃ calls, Traced engine depth mode (c.plan engine.operations mode s) E calls r E' ∧
      E.templates.Gains E'.templates calls := by
  obtain ⟨calls, htrace⟩ := traced_iff.mp h
  exact ⟨calls, htrace, htrace.gains (Code.plan_keepsName ..)⟩

end

end Stencil
