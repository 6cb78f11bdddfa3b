import Stencil.Proofs.Refinement
import Stencil.Proofs.Watching

/-!
# Constants that stand for calls

A folded constant stands for its expression when the walk through the expression, in any scope and
with any templates registered since, has a value that looks like the constant, and neither logs nor
registers anything. The walk is one on the watched engine: it may refuse, and it may nest too deep,
but it may not lead to anything else. It nests too deep only up to a margin, which is what the
evaluation needed that was folded.

The templates that the walk calls are those of a reference registry. They run as the registered ones
do: an entry of the reference holds the same code with its methods watched, or it walks the
expression that a registered fragment has been built from.

## Main results

* `Engine.Runs.layer`: what is built has the layers of what it is built from, or stands for it.
* `Engine.sound_vouched`: what is known about a reference holds of it when it was made so.
* `Engine.Sound.stands`: what is folded stands for what it is folded from, when what is known about
  the reference holds of it.
-/

namespace Stencil

open Simulation (Matches)

namespace Expr

/-- Every section in the expression is over a selector that depends on its context. -/
def SectionsOpen (operations : Operations) (R : Registry) (e : Expr) : Prop :=
  ∀ operation args, (Expr.call operation args).Within e →
    Keyed.find? operation operations = some (.loop .section) →
    ∀ selector body branch, loopParts? (splitArgs args).positional = some (selector, body, branch) →
      ¬selector.Fixed operations R false

variable {operations : Operations} {R : Registry}

/-- The sections within an expression with open sections are open. -/
theorem SectionsOpen.of_within {part e : Expr} (h : e.SectionsOpen operations R)
    (hpart : part.Within e) : part.SectionsOpen operations R :=
  fun operation args hcall => h operation args (hcall.trans hpart)

/-- The sections within a part of an expression with open sections are open. -/
theorem SectionsOpen.of_mem_parts {mode : Mode} {part e : Expr} (h : e.SectionsOpen operations R)
    (hpart : part ∈ (e.layer operations mode).parts) : part.SectionsOpen operations R := by
  rcases within_of_mem_parts hpart with hpart | rfl
  · exact h.of_within hpart
  · exact fun _ _ hcall => nomatch hcall

/-- The selector of an open section is not called deterministic. -/
theorem SectionsOpen.selector {mode : Mode} : ∀ {e : Expr}, e.SectionsOpen operations R →
    ∀ {params selector body branch},
      e.layer operations mode = .loop .section params selector body branch →
      ¬selector.Fixed operations R false
  | .literal _, _, _, _, _, _, hl | .path _, _, _, _, _, _, hl => by cases hl
  | .named _ value, h, _, _, _, _, hl =>
    selector (e := value) (h.of_within (.named .self)) hl
  | .call operation args, h, params, selector, body, branch, hl => by
    unfold layer Operations.get at hl
    cases hop : Keyed.find? operation operations with
    | none =>
      rw [hop] at hl
      cases hl
    | some op =>
      rw [hop] at hl
      obtain rfl := Operation.eq_of_layer hl rfl
      obtain ⟨branch', hparts⟩ := Operation.loopParts_of_layer hl
      exact h operation args .self hop selector body branch' hparts

/-- Where no section is called, every section is open. -/
theorem sectionsOpen_of_calls {e : Expr}
    (h : ∀ c ∈ e.calls, Keyed.find? c.1 operations ≠ some (.loop .section)) (R : Registry) :
    e.SectionsOpen operations R :=
  fun _ _ hcall hop => absurd hop (h _ (hcall.calls _ List.mem_cons_self))

/-- The layer of a deterministic expression with open sections holds such parts, and it is no
section where the context is unknown. -/
theorem Fixed.determined_open {S : Registry} (hRS : R.Concedes S) {known : Bool} {e : Expr}
    (h : e.Fixed operations R known) (hopen : e.SectionsOpen operations S) (mode : Mode) :
    (e.layer operations mode).Determined (fun e v => e = .literal v) operations.Deterministic
        R.Callable (fun known e => e.SectionsOpen operations S ∧ e.Fixed operations R known) known ∧
      (known = false → ∀ params selector body branch,
        e.layer operations mode ≠ .loop .section params selector body branch) := by
  have hlayer := h.determined mode
  constructor
  · have hself : (e.layer operations mode).Rel .same
        (fun a b => a = b ∧ b.SectionsOpen operations S) (e.layer operations mode) :=
      (Layer.Rel.refl _).weaken id (fun _ _ => id) (fun _ _ _ _ => id) fun part hpart _ hpart' =>
        ⟨hpart', hpart' ▸ hopen.of_mem_parts hpart⟩
    refine hlayer.transfer hself (fun m m' hm h => hm ▸ h) ?_ ?_
    · rintro a _ v ha ⟨rfl, -⟩
      exact ha
    · rintro known a _ ha ⟨rfl, hopen⟩
      exact ⟨hopen, ha⟩
  · rintro rfl params selector body branch hl
    rw [hl] at hlayer
    cases hlayer with
    | loop _ _ hselector => exact hopen.selector hl (hselector.mono hRS id)

end Expr

namespace Engine

/-- Builds over one registry, with calls that nest at most so deep. -/
def builtOver (depth : Nat) (R : Registry) (depth' : Nat) (E : Effects) : Prop :=
  depth' = depth ∧ E.templates = R

/-- What folding keeps is kept at one depth. -/
theorem FoldKeeps.builtOver {engine : Engine} {R : Registry}
    (h : FoldKeeps engine fun _ E => E.templates = R) (depth : Nat) :
    FoldKeeps engine (builtOver depth R) :=
  fun _ _ _ _ _ hE htry => ⟨hE.1, h _ _ _ _ _ hE.2 htry⟩

/-- What is folded is deterministic where nothing is known. -/
theorem FoldsIn.fixed {engine : Engine} {depth : Nat} {R : Registry} {e : Expr} {v : Value}
    (h : FoldsIn engine (builtOver depth R) e v) : e.Fixed engine.operations R false := by
  obtain ⟨_, _, _, ⟨-, hE⟩, htry⟩ := h
  rcases tryFold_cases htry with ⟨h, -⟩ | ⟨hdet, -⟩
  · cases h
  · exact hE ▸ hdet

/-! ### Simulations up to a refusal -/

/-- The simulation between a watched evaluation and another one, which have values that look alike
when marks do not count. The first one may refuse; it may have no outcome together with the second
one, or alone where it may lag, and it may have one alone where it may lead. -/
def watchful (refusal : Error) (lags leads : Prop) (rel : Effects → Effects → Prop)
    (hmade : ∀ E F m n, rel E F → rel { E with made := m } { F with made := n }) : Simulation where
  marks := .bare
  excused err := err = refusal
  hangs := True
  lags := lags
  leads := leads
  rel := rel
  hangs_of_lags := fun _ => trivial
  hangs_of_leads := fun _ => trivial
  settle := by
    intro E F v w hrel hv
    refine ⟨?_, hmade _ _ _ _ hrel⟩
    have hv : v.unmarked = w.unmarked := hv
    show (v.marked E.run E.made).1.unmarked = (w.marked F.run F.made).1.unmarked
    rw [Value.unmarked_marked, Value.unmarked_marked, hv]

section Watchful

variable {refusal : Error} {lags leads : Prop} {rel : Effects → Effects → Prop}
  {hmade : ∀ E F m n, rel E F → rel { E with made := m } { F with made := n }}

/-- A call of a watched method matches a call of the method. -/
theorem watchful_call {m : Method} {args args' : Arguments} (hargs : args.Alike .bare args')
    (hlog : ∀ E F, rel E F → rel { E with log := E.log ++ ((m.watched refusal).run args).log }
      { F with log := F.log ++ ((m.watched refusal).run args).log }) :
    (watchful refusal lags leads rel hmade).Matches (Value.Alike .bare)
      ((m.watched refusal).call args) (m.call args') := by
  refine @matches_call (watchful refusal lags leads rel hmade) _ _ _ _ ?_ hlog
  rcases m.watched_same refusal hargs with h | h
  · exact .inl ⟨refusal, h, rfl⟩
  · exact .inr h

end Watchful

end Engine

/-- How deep calls may nest in two evaluations. In the first one they nest no deeper than in the
second one, and it may lag, or they nest deeper by a margin, and it may lead. -/
inductive Simulation.InPace (sim : Simulation) (margin depth depth' : Nat) : Prop
  | lagging : sim.lags → depth ≤ depth' → InPace sim margin depth depth'
  | leading : sim.leads → depth' + margin ≤ depth → InPace sim margin depth depth'

/-- The first evaluation may lag, or its calls may nest as deep as the margin. -/
theorem Simulation.InPace.lags_or_le {sim : Simulation} {margin depth depth' : Nat}
    (h : sim.InPace margin depth depth') : sim.lags ∨ margin ≤ depth := by
  cases h with
  | lagging hlags => exact .inl hlags
  | leading _ hle => exact .inr (Nat.le_of_add_left_le hle)

namespace Engine

/-- Templates match at some depths when their code does at smaller ones. -/
theorem runTemplate_paired {sim : Simulation} {margin depth depth' : Nat}
    (h : sim.InPace margin depth depth') {engine engine' : Engine} {x y : TemplateBody}
    {s t : Scope} (hcode : ∀ d d', d < depth → sim.InPace margin d d' →
      sim.Paired s t (x.code.eval (engine.host d .sync)) (y.code.eval (engine'.host d' .sync))) :
    sim.Paired s t (engine.runTemplate depth .sync x) (engine'.runTemplate depth' .sync y) := by
  cases depth with
  | zero =>
    intro E F hrel
    rw [runTemplate_zero, EvalM.run_tooDeep]
    cases h with
    | lagging hlags =>
      cases engine'.runTemplate depth' .sync y t F with
      | none => exact .hang (sim.hangs_of_lags hlags)
      | some outcome => exact .lag hlags
    | leading hleads hle =>
      obtain rfl : depth' = 0 := by omega
      exact .hang (sim.hangs_of_leads hleads)
  | succ depth =>
    cases depth' with
    | zero =>
      cases h with
      | lagging _ hle => exact absurd hle (Nat.not_succ_le_zero depth)
      | leading hleads =>
        intro E F hrel
        rw [runTemplate_zero, EvalM.run_tooDeep]
        cases engine.runTemplate (depth + 1) .sync x s E with
        | none => exact .hang (sim.hangs_of_leads hleads)
        | some outcome => exact .lead hleads
    | succ depth' =>
      rw [runTemplate_succ, runTemplate_succ, TemplateBody.mode_sync, TemplateBody.mode_sync]
      refine hcode depth depth' (Nat.lt_succ_self depth) ?_
      cases h with
      | lagging hlags hle => exact .lagging hlags (Nat.le_of_succ_le_succ hle)
      | leading hleads hle => exact .leading hleads (by omega)

/-- A deterministic method of a watched engine logs nothing when those of the engine do not. -/
theorem MethodsQuiet.watched {engine : Engine} (hquiet : engine.MethodsQuiet) {refusal : Error}
    {m : Method} (hm : (engine.watched refusal).operations.Deterministic m) (args : Arguments) :
    (m.run args).log = [] := by
  obtain ⟨hdeterministic, name, hfind⟩ := hm
  rw [find?_watched, Option.map_eq_some_iff] at hfind
  obtain ⟨op, hop, hwatched⟩ := hfind
  cases op with
  | method m' =>
    cases hwatched
    exact m'.watched_log refusal (hquiet m' ⟨hdeterministic, name, hop⟩) args
  | form | loop | context | template | define | lookup | position => cases hwatched

/-! ### Code that runs alike -/

variable (engine : Engine) (refusal : Error) (final : Registry)

/-- The value stands for the expression: with the templates of a registry, the walk through the
expression on the watched engine refuses, or has a value that looks like this one and changes
neither templates nor lines. It ends as soon as calls may nest as deep as a margin. -/
structure Stands (L : Registry) (margin : Nat) (e : Expr) (v : Value) : Prop where
  value : ∀ depth s E r E', L.Within E.templates →
    (engine.watched refusal).evalExpr depth .sync e s E = some (r, E') →
    r = .error refusal ∨
      ∃ w, r = .ok w ∧ w.Alike .bare v ∧ E'.templates = E.templates ∧
        (engine.MethodsQuiet → E'.log = E.log)
  ends : ∀ depth s E, L.Within E.templates → margin ≤ depth →
    (engine.watched refusal).evalExpr depth .sync e s E ≠ none

/-- The fragment has been built from the expression, over a registry where what is folded stands
for what it is folded from. -/
def Fits (L : Registry) (margin : Nat) (e : Expr) (f : Fragment) : Prop :=
  ∃ L₀ R₀ depth, L₀.Within L ∧ FoldKeeps engine (builtOver depth R₀) ∧
    (∀ e v, e.SectionsOpen engine.operations final →
      FoldsIn engine (builtOver depth R₀) e v → engine.Stands refusal L₀ margin e v) ∧
    BuildsIn engine (builtOver depth R₀) e f

/-- The second code runs as the first one does on the watched engine: the first one is the same code
with its methods watched, or the second one is a fragment that has been built from it. -/
inductive Runs (L : Registry) (margin : Nat) : Code → Code → Prop
  | same (c : Code) : Runs L margin (c.watched refusal) c
  | built {e : Expr} {f : Fragment} : e.SectionsOpen engine.operations final →
    engine.Fits refusal final L margin e f → Runs L margin (.walked e) (.built f)

/-- The second entry runs as the first one does on the watched engine. -/
inductive Mirror (L : Registry) (margin : Nat) (x y : TemplateEntry) : Prop
  | same : x.Watches refusal y → Mirror L margin x y
  | built {e : Expr} {b : Bool} {f : Fragment} : x.body = .interpreted e b →
    x.capturesScope = e.capturesScope engine.operations → y.body = .compiled f →
    y.capturesScope = f.touchesFrames → e.SectionsOpen engine.operations final →
    engine.Fits refusal final L margin e f → Mirror L margin x y

variable {engine refusal final} {L : Registry} {margin : Nat}

/-- The bodies of entries that mirror each other run alike. -/
theorem Mirror.runs {x y : TemplateEntry} (h : engine.Mirror refusal final L margin x y) :
    engine.Runs refusal final L margin x.body.code y.body.code := by
  cases h with
  | same h =>
    rw [h.body, TemplateBody.code_watched]
    exact .same _
  | built hx _ hy _ hopen hf =>
    rw [hx, hy]
    exact .built hopen hf

/-- A value that stands for an expression still does with a greater margin. -/
theorem Stands.mono {margin' : Nat} (hmargin : margin ≤ margin') {e : Expr} {v : Value}
    (h : engine.Stands refusal L margin e v) : engine.Stands refusal L margin' e v where
  value := h.value
  ends depth s E hE hle := h.ends depth s E hE (Nat.le_trans hmargin hle)

/-- Entries go on to run alike when templates are registered, and with a greater margin. -/
theorem Mirror.mono {L' : Registry} (hL : L.Within L') {margin' : Nat} (hmargin : margin ≤ margin')
    {x y : TemplateEntry} (h : engine.Mirror refusal final L margin x y) :
    engine.Mirror refusal final L' margin' x y := by
  cases h with
  | same h => exact .same h
  | built hx hxs hy hys hopen hf =>
    obtain ⟨L₀, R₀, depth, hL₀, hkeeps, hstands, hf⟩ := hf
    exact .built hx hxs hy hys hopen ⟨L₀, R₀, depth, hL₀.trans hL, hkeeps,
      fun e v hopen hfold => (hstands e v hopen hfold).mono hmargin, hf⟩

/-- What is a constant runs as the same constant. -/
theorem Runs.constant {c d : Code} (h : engine.Runs refusal final L margin c d) {v : Value}
    (hc : c.constant? = some v) : d.constant? = some v := by
  cases h with
  | same => rwa [Code.constant?_watched] at hc
  | @built e f _ hf =>
    obtain ⟨_, _, _, _, _, _, _, _, _, _, hbuild⟩ := hf
    cases e with
    | literal w =>
      cases hbuild
      exact hc
    | path | named | call => cases hc

/-! ### Layers -/

/-- What the layers of code that runs alike have in common. -/
def running (engine : Engine) (refusal : Error) (final L : Registry) (margin : Nat) : Pairing where
  templates := True
  methods := fun m m' => m = m'.watched refusal
  entries := fun entry entry' => ∀ T R key,
    engine.Mirror refusal final L margin (entry T key) (entry' R key) ∧ (entry T key).name = key ∧
      (entry' R key).name = key

/-- Code that runs alike has layers that run alike, or the second one stands for the first one. -/
theorem Runs.layer (hsync : engine.MethodsSync) {c d : Code}
    (h : engine.Runs refusal final L margin c d) :
    (∃ e v L₀, c = .walked e ∧ d = .built (.const v) ∧ engine.settings.fold = true ∧
        L₀.Within L ∧ engine.Stands refusal L₀ margin e v) ∨
      (c.layer (engine.watched refusal).operations .sync).Rel
        (running engine refusal final L margin) (engine.Runs refusal final L margin)
        (d.layer engine.operations .sync) := by
  cases h with
  | same =>
    refine .inr ((d.layer_watched engine refusal .sync).weaken id (fun _ _ => id) ?_ ?_)
    · intro name entry entry' _ hentry T R key
      obtain ⟨hwatches, hnames⟩ := hentry T R key
      exact ⟨.same hwatches, hnames⟩
    · rintro _ - part rfl
      exact .same part
  | @built e f hopen hfits =>
    obtain ⟨L₀, R₀, depth, hL₀, hkeeps, hstands, hf⟩ := hfits
    rcases hf.folded_or_layered hkeeps (fun c _ m hm => hsync c.1 m hm) with ⟨v, rfl, hfold⟩ | hsame
    · refine .inl ⟨e, v, L₀, rfl, rfl, ?_, hL₀, hstands e v hopen hfold⟩
      by_contra h
      exact not_foldsIn (Bool.of_not_eq_true h) hfold
    · have hrel : (e.layer (engine.watched refusal).operations .sync).Rel
          { templates := True, methods := fun m m' => m = m'.watched refusal
            entries := Makes engine (builtOver depth R₀) }
          (BuildsIn engine (builtOver depth R₀)) (f.layer .sync) :=
        (Expr.layer_watched engine refusal .sync e).of_eq_parts (hsame .sync) id
          (fun _ _ _ h h' => h' ▸ h) fun _ _ _ h h' => h ▸ h'
      -- The layer of the expression on the engine itself tells what its parts and bodies are.
      have hopenParts : ∀ part ∈ (e.layer (engine.watched refusal).operations .sync).parts,
          part.SectionsOpen engine.operations final := by
        intro part hpart
        obtain ⟨_, hpart', rfl⟩ :=
          (Expr.layer_watched engine refusal .sync e).flip.exists_part hpart
        exact hopen.of_mem_parts hpart'
      refine .inr (hrel.transfer id (fun _ _ => id) ?_ ?_)
      · rintro name entry entry' hl hmakes T R key
        obtain ⟨body, hbody, hentry⟩ := Expr.exists_define hl
        cases hmakes with
        | @intro e' g _ E hg _ =>
          obtain rfl : e' = body := by
            have hbody := congrArg (fun entry : EntryMaker => (entry [] "").body) hentry
            exact (TemplateBody.interpreted.inj hbody).1
          exact ⟨.built rfl rfl rfl rfl (hopen.of_within hbody)
            ⟨L₀, R₀, depth, hL₀, hkeeps, hstands, hg⟩, rfl, rfl⟩
      · intro part hpart g hg
        exact .built (hopenParts part hpart) ⟨L₀, R₀, depth, hL₀, hkeeps, hstands, hg⟩

/-! ### Folding -/

/-- What stands for an expression matches the walk through it, which may refuse, and may nest too
deep unless calls may nest as deep as the margin. -/
theorem Stands.paired {e : Expr} {v : Value} (h : engine.Stands refusal L margin e v)
    {lags leads : Prop} {rel : Effects → Effects → Prop}
    {hmade : ∀ E F m n, rel E F → rel { E with made := m } { F with made := n }}
    (hwithin : ∀ E F, rel E F → L.Within E.templates)
    (hrel : ∀ E E' F, rel E F → E'.templates = E.templates →
      (engine.MethodsQuiet → E'.log = E.log) → rel E' F) {depth : Nat}
    (hdepth : lags ∨ margin ≤ depth) (host : Host) (s t : Scope) :
    (watchful refusal lags leads rel hmade).Paired s t
      ((Code.walked e).eval ((engine.watched refusal).host depth .sync))
      ((Code.built (.const v)).eval host) := by
  intro E F hE
  show (watchful refusal lags leads rel hmade).Joint _ _ (some (.ok v, F))
  rcases heval : (Code.walked e).eval ((engine.watched refusal).host depth .sync) s E with
    _ | ⟨r, E'⟩
  · exact .lag (hdepth.resolve_right fun hle => h.ends depth s E (hwithin E F hE) hle heval)
  · rcases h.value depth s E r E' (hwithin E F hE) heval with
      rfl | ⟨w, rfl, hv, htemplates, hlog⟩
    · exact .excused rfl
    · exact .ok hv (hrel E E' F hE htemplates hlog)

/-- What is known about the templates of a reference registry holds of it: some of the code is
deterministic, among it the bodies of the templates that are called so, and where the context is
unknown it is no section. -/
structure Sound (engine : Engine) (refusal : Error) (L : Registry) (det : Bool → Code → Prop) :
    Prop where
  layer : ∀ known c, det known c →
    (c.layer (engine.watched refusal).operations .sync).Determined
      (fun c v => c.constant? = some v) (engine.watched refusal).operations.Deterministic L.Callable
      det known
  sections : ∀ c, det false c → ∀ params selector body branch,
    c.layer (engine.watched refusal).operations .sync ≠ .loop .section params selector body branch
  body : ∀ bare key entry, L.Callable bare key → Keyed.find? key L = some entry →
    det (!bare) entry.body.code

variable (refusal) in
/-- Code that is deterministic on the engine has a deterministic layer on a watched engine, too,
with its methods watched. -/
theorem determined_watched {callable : Bool → String → Prop} {det : Bool → Code → Prop}
    {known : Bool} {mode : Mode} {c : Code}
    (h : (c.layer engine.operations mode).Determined (fun c v => c.constant? = some v)
      engine.operations.Deterministic callable det known) :
    ((c.watched refusal).layer (engine.watched refusal).operations mode).Determined
      (fun c v => c.constant? = some v) (engine.watched refusal).operations.Deterministic callable
      (fun known d => ∃ c, d = c.watched refusal ∧ det known c) known := by
  refine h.transfer (c.layer_watched engine refusal mode).flip ?_ ?_ ?_
  · rintro m _ rfl ⟨hdeterministic, name, hop⟩
    refine ⟨hdeterministic, name, ?_⟩
    rw [find?_watched, hop]
    rfl
  · rintro a _ v ha rfl
    rwa [Code.constant?_watched]
  · rintro known a _ ha rfl
    exact ⟨a, rfl, ha⟩

/-- Code of a section has a section for its expression. -/
theorem Codes.section {e : Expr} {c : Code} (h : engine.Codes e c) {params : List String}
    {selector body branch : Code}
    (hl : c.layer engine.operations .sync = .loop .section params selector body branch) :
    ∃ selector body branch,
      e.layer engine.operations .sync = .loop .section params selector body branch := by
  cases h with
  | walked => exact Layer.of_map_loop hl
  | built hf =>
    obtain ⟨_, _, _, hl⟩ := Layer.of_map_loop hl
    have hrel := hf.layer_rel hl nofun nofun
    generalize e.layer engine.operations .sync = l at hrel ⊢
    cases hrel
    exact ⟨_, _, _, rfl⟩

/-- The code is that of a deterministic expression with open sections, with its methods watched. -/
def Vouched (engine : Engine) (refusal : Error) (final L : Registry) (known : Bool)
    (c : Code) : Prop :=
  ∃ d e, c = d.watched refusal ∧ engine.Codes e d ∧ e.SectionsOpen engine.operations final ∧
    e.Fixed engine.operations L known

/-- What is known about the templates of a reference holds of it when the bodies of those that are
called deterministic are code of such expressions. -/
theorem sound_vouched (hfinal : L.Concedes final)
    (hbody : ∀ bare key entry, L.Callable bare key → Keyed.find? key L = some entry →
      engine.Vouched refusal final L (!bare) entry.body.code) :
    engine.Sound refusal L (engine.Vouched refusal final L) where
  layer := by
    rintro known _ ⟨d, e, rfl, hd, hopen, he⟩
    have hlayer := determined_watched refusal
      (hd.determined (he.determined_open hfinal hopen .sync).1)
    refine hlayer.transfer (.refl _) (fun m m' hm h => hm ▸ h) ?_ ?_
    · rintro a _ v ha rfl
      exact ha
    · rintro known _ _ ⟨d, rfl, e, hd, hopen, he⟩ rfl
      exact ⟨d, e, rfl, hd, hopen, he⟩
  sections := by
    rintro _ ⟨d, e, rfl, hd, hopen, he⟩ params selector body branch hl
    have hrel := d.layer_watched engine refusal .sync
    rw [hl] at hrel
    generalize hdl : d.layer engine.operations .sync = l at hrel
    cases hrel
    obtain ⟨selector, body, branch, hel⟩ := hd.section hdl
    exact (he.determined_open hfinal hopen .sync).2 rfl params selector body branch hel
  body := hbody

/-- The simulation between a walk with a fixed registry, which changes neither templates nor lines,
and an evaluation with another fixed registry. -/
def steadily (engine : Engine) (refusal : Error) (G R : Registry) (log : List String)
    (lags leads : Prop) : Simulation :=
  watchful refusal lags leads
    (fun E F => E.templates = G ∧ F.templates = R ∧ (engine.MethodsQuiet → E.log = log))
    fun _ _ _ _ h => h

namespace Sound

variable {det : Bool → Code → Prop} {G R : Registry} {lags leads : Prop}

/-- Deterministic code matches what runs as it does, as soon as the templates that it calls match.
-/
theorem eval_paired (hsound : engine.Sound refusal L det) (hsync : engine.MethodsSync)
    (hmirror : Registry.Related (engine.Mirror refusal final L margin) L R) (hG : L.Within G)
    {log : List String} {depth depth' : Nat} (hdepth : lags ∨ margin ≤ depth)
    (hcalls : ∀ bare x y, det (!bare) x.body.code → engine.Mirror refusal final L margin x y →
      ∀ s t, (bare = false → s.context.Alike .bare t.context) →
        (engine.steadily refusal G R log lags leads).Paired s t
          ((engine.watched refusal).runTemplate depth .sync x.body)
          (engine.runTemplate depth' .sync y.body))
    {known : Bool} {c d : Code} (hc : det known c) (hcd : engine.Runs refusal final L margin c d)
    {s t : Scope} (hst : known = true → s.context.Alike .bare t.context) :
    (engine.steadily refusal G R log lags leads).Paired s t
      (c.eval ((engine.watched refusal).host depth .sync)) (d.eval (engine.host depth' .sync)) := by
  have common : (engine.steadily refusal G R log lags leads).SteadyCommon
      ((engine.watched refusal).host depth .sync) (engine.host depth' .sync)
      (fun _ bare key => L.Callable bare key)
      (fun m m' => m = m'.watched refusal ∧
        (engine.watched refusal).operations.Deterministic m) :=
    { calls := by
        rintro known bare key hcallable E F ⟨hE, hF, -⟩
        obtain ⟨x, hx, -⟩ := id hcallable
        have hfind := Layer.forall₂_find? hmirror key
        rw [hx] at hfind
        generalize hy : Keyed.find? key R = y? at hfind
        cases hfind with
        | @some _ y hxy =>
          have hgetE : E.templates.get key = .ok x := by
            unfold Registry.get
            rw [hE, hG key x hx]
          have hgetF : F.templates.get key = .ok y := by
            unfold Registry.get
            rw [hF, hy]
          rw [hgetE, hgetF]
          refine .ok fun s t v w hvw => ?_
          refine hcalls bare x y (hsound.body bare key x hcallable hx) hxy _ _ fun hbare => ?_
          rw [TemplateEntry.scope_context, TemplateEntry.scope_context]
          exact hvw (.inr hbare)
      methods := by
        rintro _ m ⟨rfl, hm⟩ args args' hargs
        refine watchful_call hargs ?_
        rintro E F ⟨hE, hF, hlog⟩
        refine ⟨hE, hF, fun hquiet => ?_⟩
        rw [hquiet.watched hm, List.append_nil, hlog hquiet] }
  refine Code.paired_steady
    (M := fun known c d => det known c ∧ engine.Runs refusal final L margin c d)
    common ?_ c known d ⟨hc, hcd⟩ s t hst
  rintro known c d ⟨hc, hcd⟩
  rcases hcd.layer hsync with ⟨e, v, L₀, rfl, rfl, -, hL₀, hstands⟩ | hrel
  · refine .inr fun s t _ => hstands.paired ?_ ?_ hdepth _ s t
    · rintro E F ⟨rfl, -⟩
      exact hL₀.trans hG
    · rintro E E' F ⟨hE, hF, hlog⟩ htemplates hkept
      exact ⟨htemplates.trans hE, hF, fun hquiet => (hkept hquiet).trans (hlog hquiet)⟩
  · refine .inl ((hsound.layer known c hc).steady hrel ?_ (fun _ _ hm h => ⟨h, hm⟩) ?_ ?_ ?_ ?_)
    · exact fun _ _ _ _ _ h => h
    · exact fun _ _ _ hc hcd => hcd.constant hc
    · exact fun _ _ _ hc hcd => ⟨hc, hcd⟩
    · exact fun _ _ hc hcd => ⟨hc, hcd⟩
    · rintro params selector body branch hl rfl
      exact absurd hl (hsound.sections c hc params selector body branch)

/-- Deterministic code matches what runs as it does, with calls that nest deeper in one of the two.
-/
theorem paired (hsound : engine.Sound refusal L det) (hsync : engine.MethodsSync)
    (hmirror : Registry.Related (engine.Mirror refusal final L margin) L R) (hG : L.Within G)
    (log : List String) {depth depth' : Nat}
    (hpace : (engine.steadily refusal G R log lags leads).InPace margin depth depth') {known : Bool}
    {c d : Code} (hc : det known c) (hcd : engine.Runs refusal final L margin c d) {s t : Scope}
    (hst : known = true → s.context.Alike .bare t.context) :
    (engine.steadily refusal G R log lags leads).Paired s t
      (c.eval ((engine.watched refusal).host depth .sync)) (d.eval (engine.host depth' .sync)) := by
  induction depth using Nat.strongRecOn generalizing depth' known c d s t with
  | ind depth ih =>
    refine hsound.eval_paired hsync hmirror hG (hpace.lags_or_le) ?_ hc hcd hst
    intro bare x y hx hxy s t hst
    refine runTemplate_paired hpace fun d d' hd hpace => ?_
    exact ih d hd hpace hx hxy.runs fun h => hst (by simpa using h)

/-- What is folded over a registry stands for what it is folded from, with the templates of the
reference. The walk needs no more than the evaluation did that was folded, and the margin. -/
theorem stands (hsound : engine.Sound refusal L det) (hsync : engine.MethodsSync)
    (hmirror : Registry.Related (engine.Mirror refusal final L margin) L R) {e : Expr} {v : Value}
    (he : det false (.walked e)) {depth : Nat} (hfold : FoldsIn engine (builtOver depth R) e v) :
    engine.Stands refusal L (depth + margin) e v := by
  obtain ⟨depth₀, E₀, E₀', ⟨rfl, hE₀⟩, htry⟩ := hfold
  rcases tryFold_cases htry with ⟨h, -⟩ | ⟨-, -, result, after, hconst, hvalue, -⟩
  · cases h
  · obtain rfl : result = .ok v := by
      cases result with
      | error err => cases hvalue
      | ok w =>
        cases hvalue
        rfl
    -- The walk in any scope is compared with the evaluation that was folded.
    have hjoint : ∀ lags leads depth depth' s E, L.Within E.templates → depth₀ ≤ depth' →
        (engine.steadily refusal E.templates R E.log lags leads).InPace margin depth depth' →
        (engine.steadily refusal E.templates R E.log lags leads).Joint (Value.Alike .bare)
          ((engine.watched refusal).evalExpr depth .sync e s E) (some (.ok v, after)) := by
      intro lags leads depth depth' s E hL hle hpace
      have hpaired := hsound.paired hsync hmirror hL E.log hpace he (.same (.walked e))
        (s := s) (t := Scope.root .null) nofun
      have hjoint := hpaired (show (engine.steadily refusal E.templates R E.log lags leads).rel E
        (foldEffects E₀) from ⟨rfl, hE₀, fun _ => rfl⟩)
      rwa [engine.eval_mono hle (c := .walked e) hconst] at hjoint
    constructor
    · intro depth s E r E' hL heval
      have h := hjoint True False depth (max depth depth₀) s E hL (Nat.le_max_right _ _)
        (.lagging trivial (Nat.le_max_left _ _))
      rw [heval] at h
      cases h with
      | ok hv hrel => exact .inr ⟨_, rfl, hv, hrel.1, hrel.2.2⟩
      | excused herr =>
        obtain rfl : _ = refusal := herr
        exact .inl rfl
    · intro depth s E hL hle heval
      have h := hjoint False True depth depth₀ s E hL (Nat.le_refl _) (.leading trivial hle)
      rw [heval] at h
      cases h with
      | lag hlags => exact hlags

end Sound

end Engine

end Stencil
