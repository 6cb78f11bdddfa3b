import Stencil.Proofs.Folding

/-!
# Names that are registered again

What is known about a template is found out when it is registered, from the templates that it calls
at that time. When one of these is registered again, it is not found out anew: a template may go on
to be called deterministic although what it calls is no more. A template that is built afterwards
folds calls of it, and shows something else than the walk through the same expression.

That is the only way. As long as nothing is taken back that is known about a template, whatever is
known about the registered templates holds of them, however often their names have been registered,
and a template that is compiled shows what it shows when it is walked.

## Main results

* `Engine.Current.registerEach`: registrations that take nothing back leave a registry current.
* `Engine.reregistered_as_walked`: after such registrations a template shows when it is compiled
  what it shows when it is walked.
* `Engine.stale_flag_differs`: a registration that takes something back, and a template that shows
  something else.
-/

namespace Stencil

namespace Registry

variable {refusal : Error} {R : Registry}

/-- What is found under watch is what is found, watched. -/
theorem find?_watched (key : String) :
    Keyed.find? key (R.watched refusal) =
      (Keyed.find? key R).map (TemplateEntry.watched refusal) :=
  Keyed.find?_mapValues _ key R

/-- Watching methods does not change which templates may be called. -/
theorem callable_watched (bare : Bool) (key : String) :
    (R.watched refusal).Callable bare key ↔ R.Callable bare key := by
  unfold Callable
  rw [find?_watched]
  cases Keyed.find? key R with
  | none => simp
  | some entry =>
    simp only [Option.map_some, Option.some.injEq, exists_eq_left']
    exact Iff.rfl

/-- A registration takes nothing back when its entry is called deterministic where the one is that
had the name. -/
theorem concedes_register {entry : TemplateEntry}
    (h : ∀ bare, R.Callable bare entry.name →
      (if bare then entry.traits.isInlinable else entry.traits.isDeterministic) = true) :
    R.Concedes (R.register entry) := by
  intro bare key hcallable
  by_cases hkey : key = entry.name
  · subst hkey
    exact callable_register_self.mpr (h bare hcallable)
  · exact (callable_register_ne hkey).mpr hcallable

end Registry

namespace Engine

/-- What is known about the templates of a registry holds of it: those that are called deterministic
are made of expressions that are so, with its templates. No section in them is over something that
is deterministic with the templates that are registered in the end. -/
def Current (engine : Engine) (final R : Registry) : Prop :=
  ∀ bare key entry, R.Callable bare key → Keyed.find? key R = some entry →
    ∃ e, engine.Codes e entry.body.code ∧ e.SectionsOpen engine.operations final ∧
      e.Fixed engine.operations R (!bare)

/-- Registering expressions one after the other takes nothing back that is known about a template:
what is called deterministic is only replaced by something that is so, too. -/
def Lasting (engine : Engine) (depth : Nat) : List Registration → Effects → Prop
  | [], _ => True
  | r :: rs, E => ∀ result E',
      engine.registerExpr depth r.name r.body r.interpreted E = some (result, E') →
      E.templates.Concedes E'.templates ∧ engine.Lasting depth rs E'

variable {engine : Engine} {refusal : Error} {final R : Registry}

/-! ### Registering again -/

/-- The empty registry is current. -/
theorem Current.empty : engine.Current final [] := by
  rintro bare key entry - hfind
  cases hfind

/-- A current registry is reliable. -/
theorem Current.reliable (h : engine.Current final R) : engine.Reliable R := by
  intro bare key entry hcallable hfind
  obtain ⟨e, hcodes, -, he⟩ := h bare key entry hcallable hfind
  exact ⟨e, hcodes, he⟩

/-- A registration that takes nothing back leaves a registry current. -/
theorem Current.register (h : engine.Current final R) {e : Expr} {y : TemplateEntry}
    (hopen : e.SectionsOpen engine.operations final) (hy : engine.EntryOf R e y)
    (hconcedes : R.Concedes (R.register y)) : engine.Current final (R.register y) := by
  intro bare key entry hcallable hfind
  by_cases hkey : key = y.name
  · subst hkey
    obtain rfl : entry = y :=
      (Option.some.inj ((Keyed.find?_insert_self _ _ _).symm.trans hfind)).symm
    obtain ⟨hdeterministic, hinlinable⟩ := hy.traits
    have he : e.Fixed engine.operations R (!bare) := by
      rw [Registry.callable_register_self, hdeterministic, hinlinable] at hcallable
      cases bare <;> exact hcallable
    exact ⟨e, hy.codes, hopen, he.mono hconcedes id⟩
  · rw [Registry.callable_register_ne hkey] at hcallable
    have hold : Keyed.find? key R = some entry := (Keyed.find?_insert_ne hkey _ _).symm.trans hfind
    obtain ⟨e', hcodes, hopen', he'⟩ := h bare key entry hcallable hold
    exact ⟨e', hcodes, hopen', he'.mono hconcedes id⟩

/-- Registrations that take nothing back leave a registry current. -/
theorem Current.registerEach {depth : Nat} {rs kept : List Registration} {E E' : Effects}
    (h : engine.Current final E.templates) (hlasting : engine.Lasting depth rs E)
    (hrun : engine.registerEach depth rs E = some (.ok kept, E'))
    (hopen : ∀ r ∈ kept, r.body.SectionsOpen engine.operations final) :
    engine.Current final E'.templates := by
  induction rs generalizing E kept with
  | nil =>
    cases hrun
    exact h
  | cons r rs ih =>
    rcases registerEach_cons hrun with ⟨err, E₁, hr, hrest⟩ | ⟨E₁, kept, hr, hrest, rfl⟩
    · rw [← registerExpr_error h.reliable.foldKeeps hr] at h
      exact ih h (hlasting _ _ hr).2 hrest hopen
    · obtain ⟨y, hy, hE₁⟩ := registerExpr_ok h.reliable.foldKeeps hr
      obtain ⟨hconcedes, hlasting⟩ := hlasting _ _ hr
      rw [hE₁] at hconcedes
      have hnext := h.register (hopen r List.mem_cons_self) hy.entryOf hconcedes
      rw [← hE₁] at hnext
      exact ih hnext hlasting hrest fun k hk => hopen k (List.mem_cons_of_mem _ hk)

/-! ### Compiling and walking -/

/-- Every entry runs as the same one does with its methods watched. -/
theorem mirror_watched (final L : Registry) (margin : Nat) :
    Registry.Related (engine.Mirror refusal final L margin) (R.watched refusal) R :=
  List.forall₂_map_left_iff.mpr (List.forall₂_same.mpr fun _ _ => ⟨rfl, .same ⟨rfl, rfl⟩⟩)

/-- What is known of an expression does not change when the methods of the templates are watched. -/
theorem fixed_watched {known : Bool} {e : Expr} :
    e.Fixed engine.operations (R.watched refusal) known ↔ e.Fixed engine.operations R known := by
  unfold Expr.Fixed
  rw [Expr.determinacy_congr Registry.callable_watched]

/-- Entries of a current registry that are vouched for are sound under watch. -/
theorem Current.sound (h : engine.Current R R) :
    engine.Sound refusal (R.watched refusal) (engine.Vouched refusal R (R.watched refusal)) := by
  refine sound_vouched (fun bare key => (Registry.callable_watched bare key).mp) ?_
  intro bare key entry hcallable hfind
  rw [Registry.find?_watched, Option.map_eq_some_iff] at hfind
  obtain ⟨entry, hfind, rfl⟩ := hfind
  obtain ⟨e, hcodes, hopen, he⟩ :=
    h bare key entry ((Registry.callable_watched bare key).mp hcallable) hfind
  exact ⟨entry.body.code, e, entry.body.code_watched refusal, hcodes, hopen, fixed_watched.mpr he⟩

/-- What is built over a current registry fits its expression, with a margin for what is folded. -/
theorem Current.fits (h : engine.Current R R) (hsync : engine.MethodsSync) {depth : Nat} {e : Expr}
    {f : Fragment} {E E' : Effects} (hE : E.templates = R)
    (hbuild : engine.build depth e E = some (.ok f, E')) :
    engine.Fits refusal R (R.watched refusal) depth e f := by
  refine ⟨R.watched refusal, R, depth, .refl _, h.reliable.foldKeeps.builtOver depth,
    fun e v hopen hfold => ?_, depth, E, E', ⟨rfl, hE⟩, hbuild⟩
  exact h.sound.stands hsync (mirror_watched R _ 0)
    ⟨.walked e, e, rfl, .walked, hopen, fixed_watched.mpr hfold.fixed⟩ hfold

/-- Over a current registry, a compiled template shows what the walk through its expression shows,
unless that refuses when methods are watched. The converse holds where the calls of the walk may
nest deeper, by as much as calls could nest in the build. -/
theorem Current.shown {E : Effects} (h : engine.Current E.templates E.templates)
    (hsync : engine.MethodsSync) {e : Expr} (hopen : e.SectionsOpen engine.operations E.templates)
    {depth : Nat} {f : Fragment} {E' : Effects} (hf : engine.build depth e E = some (.ok f, E'))
    (refusal : Error) (depth' : Nat) (data : Value) (o : Outcome String) :
    ((engine.walking e).shown engine depth' data E = some o →
      (∃ p, Template.shown engine depth' { mode := .sync, body := .compiled f } data E' = some p ∧
          p.Same engine.MethodsQuiet o) ∨
        engine.Refuses refusal (E.templates.watched refusal) e depth' data) ∧
      (Template.shown engine depth' { mode := .sync, body := .compiled f } data E' = some o →
        (∃ p, (engine.walking e).shown engine (depth' + depth) data E = some p ∧
            p.Same engine.MethodsQuiet o) ∨
          engine.Refuses refusal (E.templates.watched refusal) e (depth' + depth) data) := by
  have hruns : engine.Runs refusal E.templates (E.templates.watched refusal) depth (.walked e)
      (.built f) := .built hopen (h.fits hsync rfl hf)
  have hmirror : Registry.Related
      (engine.Mirror refusal E.templates (E.templates.watched refusal) depth)
      (E.templates.watched refusal) E'.templates := by
    rw [h.reliable.foldKeeps.build rfl hf]
    exact mirror_watched _ _ _
  constructor
  · -- The walk needs no constants, so that it goes along with the watched one as it would without
    -- folding.
    have hwalks : engine.unfolding.Runs refusal E.templates (E.templates.watched refusal) 0
        (.walked e) (engine.walking e).body.code := .same (.walked e)
    have hoperations : engine.operations = engine.unfolding.operations := rfl
    have hgap : engine.unfolding.settings.fold = true → 0 ≤ 0 := nofun
    intro hshown
    rw [shown_congr hoperations rfl] at hshown
    exact shown_along (T := { mode := .sync, body := .compiled f }) (U := engine.walking e)
      hoperations rfl hsync rfl rfl hgap hruns hwalks hmirror (mirror_watched _ _ 0) hshown
  · have hwalks : engine.Runs refusal E.templates (E.templates.watched refusal) 0 (.walked e)
        (engine.walking e).body.code := .same (.walked e)
    exact shown_along (T := engine.walking e) (U := { mode := .sync, body := .compiled f }) rfl rfl
      hsync rfl rfl (fun _ => Nat.le_refl depth) hwalks hruns (mirror_watched _ _ 0) hmirror

/-- Expressions are registered one after the other, under names that may be taken, and nothing is
taken back that is known about a template. A template that is built from an expression over them
shows when it is compiled the text or the failure that it shows when it is walked, unless the walk
refuses when methods are watched. When the compiled template shows something, so does the walk, as
soon as its calls may nest deeper by as much as they could in the builds. No section may be over
something deterministic. -/
theorem reregistered_as_walked (engine : Engine) (hsync : engine.MethodsSync) {depth : Nat}
    {rs kept : List Registration} {E : Effects}
    (hrun : engine.registerEach depth rs {} = some (.ok kept, E))
    (hlasting : engine.Lasting depth rs {}) {e : Expr}
    (hopen : ∀ body ∈ e :: kept.map Registration.body,
      body.SectionsOpen engine.operations E.templates)
    {T U : Template} {E' E'' : Effects}
    (hT : engine.buildTemplate depth .compiledSync e E = some (.ok T, E'))
    (hU : engine.buildTemplate depth .interpreted e E = some (.ok U, E'')) (refusal : Error)
    (depth' : Nat) (data : Value) (o : Outcome String) :
    (U.shown engine depth' data E'' = some o →
      (∃ p, T.shown engine depth' data E' = some p ∧ p.result = o.result) ∨
        engine.Refuses refusal (E.templates.watched refusal) e depth' data) ∧
      (T.shown engine depth' data E' = some o →
        (∃ p, U.shown engine (depth' + depth) data E'' = some p ∧ p.result = o.result) ∨
          engine.Refuses refusal (E.templates.watched refusal) e (depth' + depth) data) := by
  obtain ⟨rfl, rfl⟩ : U = engine.walking e ∧ E'' = E := walking_of_buildTemplate hU
  obtain ⟨f, rfl, hf⟩ := compiled_of_buildTemplate hT
  have hcurrent : engine.Current E''.templates E''.templates :=
    Current.empty.registerEach hlasting hrun fun r hr =>
      hopen _ (List.mem_cons_of_mem _ (List.mem_map_of_mem hr))
  have hsame : ∀ {m : Option (Outcome String)}, (∃ p, m = some p ∧ p.Same engine.MethodsQuiet o) →
      ∃ p, m = some p ∧ p.result = o.result := by
    rintro m ⟨p, hp, hresult, -⟩
    exact ⟨p, hp, hresult⟩
  obtain ⟨hforth, hback⟩ :=
    hcurrent.shown hsync (hopen e List.mem_cons_self) hf refusal depth' data o
  exact ⟨fun hshown => (hforth hshown).imp_left hsame, fun hshown => (hback hshown).imp_left hsame⟩

/-- A text is replaced by another one under a template that calls it, and a template that is
compiled afterwards holds the new one. -/
theorem reregistered_as_walked_text :
    let engine : Engine := { operations := [("partial", .template)] }
    let rs : List Registration := [⟨"Q", .text "old", false⟩,
      ⟨"P", .call "partial" [.text "Q"], true⟩, ⟨"Q", .text "new", false⟩]
    let e : Expr := .call "partial" [.text "P"]
    ∃ E T U E' E'', engine.registerEach 2 rs {} = some (.ok rs, E) ∧
      engine.buildTemplate 2 .compiledSync e E = some (.ok T, E') ∧
      engine.buildTemplate 2 .interpreted e E = some (.ok U, E'') ∧
      T.body.code.constant? = some (.string "new") ∧
      U.shown engine 3 .null E'' = some { result := .ok "new" } ∧
      ∃ p, T.shown engine 3 .null E' = some p ∧ p.result = .ok "new" := by
  intro engine rs e
  have hoperations : ∀ name op, Keyed.find? name engine.operations = some op → op = .template := by
    intro name op h
    have hmem := Keyed.mem_of_find? h
    simp only [engine, List.mem_singleton, Prod.mk.injEq] at hmem
    exact hmem.2
  have hsync : engine.MethodsSync := fun name m h => nomatch hoperations _ _ h
  -- Each of the three entries depends on nothing when it is registered.
  have hknown : ∀ (R : Registry) (entry : TemplateEntry), entry.traits.isInlinable = true →
      entry.traits.isDeterministic = true → R.Concedes (R.register entry) := by
    intro R entry hinlinable hdeterministic
    refine Registry.concedes_register fun bare _ => ?_
    cases bare
    · exact hdeterministic
    · exact hinlinable
  have hlasting : engine.Lasting 2 rs {} := by
    rintro _ _ ⟨⟩
    refine ⟨hknown _ _ rfl rfl, ?_⟩
    rintro _ _ ⟨⟩
    dsimp only
    refine ⟨hknown _ _ rfl rfl, ?_⟩
    rintro _ _ ⟨⟩
    dsimp only
    exact ⟨hknown _ _ rfl rfl, trivial⟩
  refine ⟨_, _, _, _, _, rfl, rfl, rfl, rfl, rfl, ?_⟩
  have hopen : ∀ body ∈ e :: rs.map Registration.body, ∀ R : Registry,
      body.SectionsOpen engine.operations R := fun body _ R =>
    Expr.sectionsOpen_of_calls (fun c _ h => nomatch hoperations _ _ h) R
  obtain ⟨hforth, -⟩ := reregistered_as_walked engine hsync rfl hlasting
    (fun body hbody => hopen body hbody _) rfl rfl (.templateNotFound "") 3
    .null { result := .ok "new" }
  rcases hforth rfl with hshown | ⟨log, hrefuses⟩
  · exact hshown
  · cases hrefuses

/-- A text is replaced by what the context holds, under a template that calls it and goes on to be
called deterministic: compiled, a call of that template shows what the walk through it does not. -/
theorem stale_flag_differs :
    let engine : Engine := { operations := [("partial", .template)] }
    let rs : List Registration := [⟨"Q", .text "constant", false⟩,
      ⟨"P", .call "partial" [.text "Q"], true⟩, ⟨"Q", .path ⟨["x"]⟩, false⟩]
    let e : Expr := .call "partial" [.text "P"]
    let data : Value := .object (.outer 0) [("x", .string "now")]
    ∃ E T U E' E'', engine.registerEach 2 rs {} = some (.ok rs, E) ∧
      engine.buildTemplate 2 .compiledSync e E = some (.ok T, E') ∧
      engine.buildTemplate 2 .interpreted e E = some (.ok U, E'') ∧
      T.shown engine 3 data E' = some { result := .ok "" } ∧
      U.shown engine 3 data E'' = some { result := .ok "now" } :=
  ⟨_, _, _, _, _, rfl, rfl, rfl, rfl, rfl⟩

end Engine

end Stencil
