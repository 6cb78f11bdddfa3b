import Stencil.Proofs.Construction

/-!
# Frames that nothing looks at

Code looks at the frames around it through an upward read, or because it calls a template, which may
have one. Code that does neither is evaluated alike under all chains of frames, as long as its
context and its place are the same: no loop, block or definition in it passes a frame on to
something that would look at it. So a call of a template whose body does not look at frames may
leave none behind, and nothing is lost when a registry keeps, with each template, whether its body
does.

## Main results

* `Code.eval_of_overlooking`: code that does not look at frames is evaluated alike under all of
  them.
* `Engine.Deed.keeps`: whatever an engine does keeps what holds of all that it makes.
* `Registry.Governed.flagged`: what a registry keeps about its templates is what their bodies do.
* `Engine.frames_unread`: frames that are not looked at may be left out, in expressions, in what is
  built from them, and in calls.
-/

namespace Stencil

open Simulation (exact)
open Fragment (SameGround exact_paired eq_of_exact_paired forall₂_paired forall₂_namedPaired)

/-! ### Code that does not look at frames -/

/-- A layer that neither reads upward nor calls a template is evaluated alike under all frames, when
its parts are. -/
theorem Layer.run_of_grounded {α : Type} {call : TemplateBody → Lazy} {eval : α → Lazy}
    {l : Layer α}
    (hlookup : ∀ p, l ≠ .lookup p) (htemplate : ∀ name named, l ≠ .template name named)
    (hparts : ∀ part ∈ l.parts, ∀ s t, SameGround s t → eval part s = eval part t)
    {s t : Scope} (hst : SameGround s t) : l.run call eval s = l.run call eval t := by
  have hpaired : ∀ part ∈ l.parts, ∀ {s t}, SameGround s t →
      exact.Paired s t (eval part) (eval part) := fun part hpart s t hst =>
    exact_paired (hparts part hpart s t hst)
  refine eq_of_exact_paired (m := l.run call eval) (n := l.run call eval) ?_
  cases l with
  | value v => exact exact_paired rfl
  | path p => exact exact_paired (congrArg (fun v => pure (p.resolve v)) hst.1)
  | lookup p => exact absurd rfl (hlookup p)
  | position r => exact exact_paired (congrArg (fun p => pure (r.read p)) hst.2)
  | form f ps => exact f.matches_eval (forall₂_paired fun p hp => hpaired p hp hst)
  | loop kind params selector body branch =>
    refine LoopStyle.matches_eval rfl (hpaired _ (by simp [parts]) hst) ?_ ?_
      (hpaired _ (by simp [parts]) hst)
    · intro item _ hitem
      obtain rfl := itemAlike_full.mp hitem
      exact hpaired _ (by simp [parts]) ⟨rfl, rfl⟩
    · intro _ v w _ _ _ _ hv hrel _
      obtain rfl := Value.alike_full.mp hv
      exact matches_wholeValue rfl (fun _ => hpaired _ (by simp [parts]) hst)
        (hpaired _ (by simp [parts]) ⟨rfl, rfl⟩) hrel
  | context params named value body =>
    refine matches_evalContext (forall₂_namedPaired fun p hp => hpaired p ?_ hst) ?_ ?_
    · exact List.mem_append_left _ (List.mem_append_left _ hp)
    · cases value with
      | none => exact .none
      | some value => exact .some (hpaired _ (by simp [parts]) hst)
    · intro replaces v w hv
      obtain rfl := Value.alike_full.mp hv
      refine hpaired _ (by simp [parts]) ?_
      unfold contextScope
      split
      · exact ⟨rfl, rfl⟩
      · exact ⟨rfl, rfl⟩
  | template name named => exact absurd rfl (htemplate name named)
  | define name entry =>
    refine matches_evalDefinition (hpaired _ (by simp [parts]) hst) ?_
    rintro E F rfl key
    exact rfl
  | method m args =>
    refine (matches_evalBuiltArguments (forall₂_namedPaired fun p hp => hpaired p hp hst)
      rfl).bind ?_
    intro args args' hargs
    obtain rfl := Arguments.alike_full.mp hargs
    exact exact_paired (m := fun _ => m.call args) (n := fun _ => m.call args) rfl (s := s) (t := t)
  | refused err => exact exact_paired rfl

/-- An expression without upward reads and calls of templates is evaluated alike under all frames.
-/
theorem Expr.eval_of_overlooking (walk : Walk) (e : Expr) :
    e.capturesScope walk.operations = false → ∀ s t, SameGround s t →
      e.eval walk s = e.eval walk t := by
  induction e using Expr.layer_induction walk.operations walk.mode with
  | step e ih =>
    intro he s t hst
    have hfirst : e.firstOperation? walk.operations Operation.capturesScope = none := by
      simpa [capturesScope] using he
    rw [eval_eq_run]
    refine Layer.run_of_grounded (fun p hl => ?_) (fun name named hl => ?_)
      (fun part hpart => ih part hpart ?_) hst
    · obtain ⟨c, hc, hop⟩ := exists_call hl rfl
      exact Bool.noConfusion (not_sought hfirst hc hop)
    · obtain ⟨c, hc, hop⟩ := exists_call hl rfl
      exact Bool.noConfusion (not_sought hfirst hc hop)
    · unfold capturesScope
      rw [firstOperation?_of_mem_parts hfirst hpart]
      rfl

/-- Whether the code may look at the frames around it. -/
def Code.looksAtFrames (operations : Operations) : Code → Bool
  | walked e => e.capturesScope operations
  | built f => f.touchesFrames

/-- Code that does not look at frames is evaluated alike under all of them. -/
theorem Code.eval_of_overlooking (host : Host) {c : Code}
    (h : c.looksAtFrames host.operations = false) {s t : Scope} (hst : SameGround s t) :
    c.eval host s = c.eval host t := by
  cases c with
  | walked e =>
    exact e.eval_of_overlooking
      { operations := host.operations, mode := host.mode, run := host.run } h s t hst
  | built f => exact f.eval_of_untouched _ h hst

/-! ### What a registry keeps about its templates -/

/-- The entry says whether its body may look at frames. -/
def TemplateEntry.Flagged (operations : Operations) (entry : TemplateEntry) : Prop :=
  entry.capturesScope = entry.body.code.looksAtFrames operations

/-- The body of a template that does not look at frames runs alike, whether or not a call leaves one
behind. -/
theorem TemplateEntry.Flagged.runTemplate {engine : Engine} {entry : TemplateEntry}
    (h : entry.Flagged engine.operations) (hcaptures : entry.capturesScope = false) (depth : Nat)
    (mode : Mode) (s : Scope) (v : Value) :
    engine.runTemplate depth mode entry.body (s.enter v) =
      engine.runTemplate depth mode entry.body (s.rebase v) := by
  cases depth with
  | zero => rfl
  | succ depth =>
    rw [engine.runTemplate_succ]
    exact Code.eval_of_overlooking _ (h.symm.trans hcaptures) ⟨rfl, rfl⟩

namespace Engine

/-- What an engine does to a registry: it evaluates code, builds and renders templates, and
registers them, from their text or from an expression and over what has their name or not. -/
inductive Deed (engine : Engine) : {α : Type} → EvalM α → Prop
  | evaluate (depth : Nat) (mode : Mode) (c : Code) (s : Scope) :
      Deed engine (c.eval (engine.host depth mode) s)
  | build (depth : Nat) (strategy : Strategy) (e : Expr) :
      Deed engine (engine.buildTemplate depth strategy e)
  | render (depth : Nat) (template : Template) (data : Value) :
      Deed engine (template.render engine depth data)
  | register (depth : Nat) (name text : String) (options : Options) (interpreted : Bool) :
      Deed engine (engine.register depth name text options interpreted)
  | registerExpr (depth : Nat) (name : String) (e : Expr) (interpreted : Bool) :
      Deed engine (engine.registerExpr depth name e interpreted)
  | insertEntry (depth : Nat) (name : String) (e : Expr) (interpreted ifAbsent : Bool) :
      Deed engine (engine.insertEntry depth name e interpreted ifAbsent)

end Engine

/-- The registries that engines with the same operations lead to. Templates may be removed from
them. -/
inductive Registry.Governed (operations : Operations) : Registry → Prop
  | empty : Governed operations []
  | deed {engine : Engine} {α : Type} {m : EvalM α} {E E' : Effects} {r : Except Error α} :
      engine.operations = operations → engine.Deed m → Governed operations E.templates →
      m E = some (r, E') → Governed operations E'.templates
  | remove {R S : Registry} : Governed operations S → R.Within S → Governed operations R

/-! ### What engines keep -/

/-- The entries that engines with the same operations make: of an expression that is walked, of one
that has been built, and of a definition inside a template that has been built. -/
inductive TemplateEntry.Made (operations : Operations) : TemplateEntry → Prop
  | interpreted (R : Registry) (key : String) (e : Expr) :
      Made operations (TemplateEntry.interpreted operations R key e)
  | compiled (R : Registry) (key : String) (e : Expr) (f : Fragment) :
      Made operations (TemplateEntry.compiled operations R key e f)
  | defined (key : String) (f : Fragment) (traits : Traits) :
      Made operations (TemplateEntry.defined key f traits)

/-- An entry that is made says whether its body looks at frames. -/
theorem TemplateEntry.Made.flagged {operations : Operations} {entry : TemplateEntry}
    (h : entry.Made operations) : entry.Flagged operations := by
  cases h <;> rfl

/-- What code defines is made with its operations. -/
theorem Code.made_of_define {operations : Operations} {mode : Mode} {c name : Code}
    {entry : EntryMaker} (h : c.layer operations mode = .define name entry) (R : Registry)
    (key : String) : (entry R key).Made operations := by
  obtain ⟨body, rfl⟩ | ⟨body, traits, rfl⟩ := Code.exists_define h
  · exact .interpreted R key body
  · exact .defined key body traits

/-- An invariant of registries holds on when something that has been made with the operations is
registered or defined. -/
structure Registry.Lasts (operations : Operations) (Inv : Registry → Prop) : Prop where
  register : ∀ {R entry}, Inv R → entry.Made operations → Inv (R.register entry)
  define : ∀ {R entry}, Inv R → entry.Made operations → Inv (R.define entry)

/-- What holds of everything that is made goes on to hold of everything that is registered. -/
theorem Registry.lasts_every {operations : Operations} {P : TemplateEntry → Prop}
    (h : ∀ entry, entry.Made operations → P entry) :
    Registry.Lasts operations (Registry.Every P) where
  register hR hentry := hR.register (h _ hentry)
  define hR hentry := hR.define (h _ hentry)

namespace Engine

open Conduct (keeping)

variable {engine : Engine} {Inv : Registry → Prop}

/-- Running a template keeps what lasts. -/
theorem runTemplate_keeps (hInv : Registry.Lasts engine.operations Inv) (depth : Nat) (mode : Mode)
    (body : TemplateBody) (s : Scope) :
    (keeping Inv fun _ => True).Holds (engine.runTemplate depth mode body s) := by
  induction depth generalizing mode body s with
  | zero => exact fun _ _ _ _ h => nomatch h
  | succ depth ih =>
    rw [runTemplate_succ]
    refine Code.conduct (M := fun _ => True) (fun c _ => ⟨?_, fun _ _ => trivial⟩) _ trivial s
    exact
      { refused := fun _ _ => Conduct.keeping_throw trivial
        method := fun _ _ _ _ => Conduct.keeping_call fun _ _ => trivial
        template := fun _ _ _ => Conduct.keeping_finds (fun _ => trivial)
          fun _ _ entry _ _ s => ih _ entry.body s
        define := fun _ _ hl => Conduct.keeping_define fun R key hR =>
          hInv.define hR (Code.made_of_define hl R key) }

/-- Evaluations keep what lasts. -/
theorem eval_keeps (hInv : Registry.Lasts engine.operations Inv) (depth : Nat) (mode : Mode)
    (c : Code) (s : Scope) :
    (keeping Inv fun _ => True).Holds (c.eval (engine.host depth mode) s) := by
  have hbody : ∃ body : TemplateBody, body.code = c ∧ body.mode mode = mode := by
    cases c with
    | walked e => exact ⟨.interpreted e false, rfl, rfl⟩
    | built f => exact ⟨.compiled f, rfl, rfl⟩
  obtain ⟨body, rfl, hmode⟩ := hbody
  have hrun := runTemplate_keeps hInv (depth + 1) mode body s
  rwa [runTemplate_succ, hmode] at hrun

/-- Folding keeps an invariant that lasts. -/
theorem tryFold_keeps (hInv : Registry.Lasts engine.operations Inv) (depth : Nat) (e : Expr) :
    (keeping Inv fun _ => True).Holds (engine.tryFold depth e) :=
  Conduct.keeping_tryFold engine depth e (eval_keeps hInv depth .sync (.walked e) _)

/-- An entry that is built is made with the operations of the engine. -/
theorem buildEntry_keeps (hInv : Registry.Lasts engine.operations Inv) {β : Type} (depth : Nat)
    (name : String) (e : Expr) (interpreted : Bool) {k : TemplateEntry → EvalM β}
    (hk : ∀ entry, entry.Made engine.operations → (keeping Inv fun _ => True).Holds (k entry)) :
    (keeping Inv fun _ => True).Holds (engine.buildEntry depth name e interpreted >>= k) := by
  have hbuild : (keeping Inv fun _ => True).Holds (engine.build depth e) :=
    Conduct.build engine depth (fun _ => Conduct.keeping_ofExcept fun _ _ => trivial)
      Conduct.keeping_templates (tryFold_keeps hInv depth) e
  exact Conduct.buildEntry engine depth Conduct.keeping_templates hbuild name interpreted
    (fun R => hk _ (.interpreted R name e)) fun R f => hk _ (.compiled R name e f)

/-- Registering an expression keeps an invariant that lasts. -/
theorem registerExpr_keeps (hInv : Registry.Lasts engine.operations Inv) (depth : Nat)
    (name : String) (e : Expr) (interpreted : Bool) :
    (keeping Inv fun _ => True).Holds (engine.registerExpr depth name e interpreted) := by
  refine buildEntry_keeps hInv depth name e interpreted fun entry hentry => ?_
  rintro E r E' hE ⟨⟩
  exact ⟨hInv.register hE hentry, fun _ _ => trivial⟩

/-- Whatever an engine does keeps what lasts. -/
theorem Deed.keeps {α : Type} {m : EvalM α} (h : engine.Deed m)
    (hInv : Registry.Lasts engine.operations Inv) : (keeping Inv fun _ => True).Holds m := by
  have hchecked : ∀ {β : Type} (result : Except Error β),
      (keeping Inv fun _ => True).Holds (EvalM.ofExcept result) := fun _ =>
    Conduct.keeping_ofExcept fun _ _ => trivial
  cases h with
  | evaluate depth mode c s => exact eval_keeps hInv depth mode c s
  | build depth strategy e =>
    exact Conduct.buildTemplate engine depth hchecked Conduct.keeping_templates
      (tryFold_keeps hInv depth) strategy e
  | render depth template data =>
    exact Conduct.render (fun s => runTemplate_keeps hInv depth template.mode template.body s) data
  | register depth name text options interpreted =>
    exact Conduct.bind _ (hchecked _) fun e => registerExpr_keeps hInv depth name e interpreted
  | registerExpr depth name e interpreted =>
    exact registerExpr_keeps hInv depth name e interpreted
  | insertEntry depth name e interpreted ifAbsent =>
    refine buildEntry_keeps hInv depth name e interpreted fun entry hentry => ?_
    cases ifAbsent with
    | true =>
      rintro E r E' hE ⟨⟩
      exact ⟨hInv.define hE hentry, fun _ _ => trivial⟩
    | false =>
      rintro E r E' hE ⟨⟩
      exact ⟨hInv.register hE hentry, fun _ _ => trivial⟩

end Engine

/-- What a registry keeps about its templates is what their bodies do. -/
theorem Registry.Governed.flagged {operations : Operations} {R : Registry}
    (h : Registry.Governed operations R) : R.Every (TemplateEntry.Flagged operations) := by
  induction h with
  | empty => exact fun _ _ h => nomatch h
  | deed hoperations hdeed _ hrun ih =>
    subst hoperations
    exact (hdeed.keeps (Registry.lasts_every fun _ => TemplateEntry.Made.flagged) ih hrun).1
  | remove _ hwithin ih => exact fun key entry hfind => ih key entry (hwithin key entry hfind)

namespace Engine

/-- Frames that are not looked at may be left out. What is built from an expression and does not
touch frames is evaluated alike under all of them, and so is an expression that captures none; what
is built touches frames only where its expression captures them. A template that is kept as
capturing none runs alike, whether or not its call leaves a frame behind. -/
theorem frames_unread (engine : Engine) :
    (∀ e f, engine.Builds e f → f.touchesFrames = false → ∀ depth mode s t, SameGround s t →
      engine.evalFragment depth mode f s = engine.evalFragment depth mode f t) ∧
    (∀ e, e.capturesScope engine.operations = false → ∀ depth mode s t, SameGround s t →
      engine.evalExpr depth mode e s = engine.evalExpr depth mode e t) ∧
    (∀ e f, engine.Builds e f → f.touchesFrames = true →
      e.capturesScope engine.operations = true) ∧
    ∀ R, Registry.Governed engine.operations R → ∀ name entry, Keyed.find? name R = some entry →
      entry.capturesScope = false → ∀ depth mode (s : Scope) v,
        engine.runTemplate depth mode entry.body (s.enter v) =
          engine.runTemplate depth mode entry.body (s.rebase v) := by
  refine ⟨fun e f _ hf depth mode s t hst => ?_, fun e he depth mode s t hst => ?_,
    fun e f hbuilds htouches => ?_, fun R hR name entry hfind hcaptures depth mode s v => ?_⟩
  · exact Code.eval_of_overlooking (engine.host depth mode) (c := .built f) hf hst
  · exact Code.eval_of_overlooking (engine.host depth mode) (c := .walked e) he hst
  · by_contra hcaptures
    have huntouched :=
      BuildsIn.untouched foldKeeps_true e f hbuilds (Bool.of_not_eq_true hcaptures)
    exact Bool.noConfusion (htouches.symm.trans huntouched)
  · exact (hR.flagged name entry hfind).runTemplate hcaptures depth mode s v

/-- A loop over items, and an upward read: the loop is evaluated alike under all frames, walked,
built and called, and the upward read is known to look at them. -/
theorem frames_unread_each :
    let engine : Engine := {}
    let items : Expr := .call "each" [.path ⟨["xs"]⟩, .path .this]
    let upward : Expr := .call "rvar" [.text "../x"]
    (∃ f, engine.Builds items f ∧ ∀ frames frames' : List Frame,
      engine.evalFragment 1 .sync f { context := .null, frames } =
          engine.evalFragment 1 .sync f { context := .null, frames := frames' } ∧
        engine.evalExpr 1 .sync items { context := .null, frames } =
          engine.evalExpr 1 .sync items { context := .null, frames := frames' }) ∧
    (∃ f, engine.Builds upward f ∧ upward.capturesScope engine.operations = true) ∧
    ∃ E entry, engine.registerExpr 1 "P" items false {} = some (.ok (), E) ∧
      Keyed.find? "P" E.templates = some entry ∧ ∀ s : Scope,
        engine.runTemplate 1 .sync entry.body (s.enter (.int 1)) =
          engine.runTemplate 1 .sync entry.body (s.rebase (.int 1)) := by
  intro engine items upward
  obtain ⟨hbuilt, hwalked, hupward, hcalled⟩ := engine.frames_unread
  refine ⟨?_, ?_, ?_⟩
  · have hf : engine.Builds items (.loop .each [] (.path ⟨["xs"]⟩) (.path .this)
        (.const (.string ""))) := ⟨0, {}, {}, trivial, rfl⟩
    exact ⟨_, hf, fun frames frames' =>
      ⟨hbuilt _ _ hf rfl 1 .sync _ _ ⟨rfl, rfl⟩, hwalked items rfl 1 .sync _ _ ⟨rfl, rfl⟩⟩⟩
  · have hf : engine.Builds upward (.lookup "../x") := ⟨0, {}, {}, trivial, rfl⟩
    exact ⟨_, hf, hupward _ _ hf rfl⟩
  · obtain ⟨E, entry, hregister, hfind, hcaptures⟩ : ∃ E entry,
        engine.registerExpr 1 "P" items false {} = some (.ok (), E) ∧
          Keyed.find? "P" E.templates = some entry ∧ entry.capturesScope = false :=
      ⟨_, _, rfl, rfl, rfl⟩
    have hgoverned : Registry.Governed engine.operations E.templates :=
      .deed rfl (.registerExpr 1 "P" items false) .empty hregister
    exact ⟨E, entry, hregister, hfind, fun s =>
      hcalled _ hgoverned "P" entry hfind hcaptures 1 .sync s (.int 1)⟩

end Engine

end Stencil
