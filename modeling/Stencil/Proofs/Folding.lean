import Stencil.Proofs.Alongside
import Stencil.Proofs.Construction
import Stencil.Proofs.Rendering

/-!
# Folding

Templates are registered one after the other, each name once, on an engine that folds and on one
that does not. Both register the same ones and refuse the others, and so do they with a template
that is built last. What the two templates show is compared with a third one: the walk through the
same expression, with all registered expressions walked, on the watched engine. As long as that does
not refuse, both show what it shows.

It refuses where a method is given containers and its answer hangs on which of them are one and the
same. There folding does show: a constant is one container wherever it is read, and the containers
that its expression makes when it is evaluated again are others.

## Main results

* `Engine.registerEach_along`: the same expressions are registered with folding and without.
* `Engine.Stage.registerEach`: the registered templates run as the walks through their expressions.
* `Engine.folding_unnoticed`: what is shown without folding is shown with it.
-/

namespace Stencil

/-- An expression that is to be registered under a name, either to be walked or to be built. -/
structure Registration where
  name : String
  body : Expr
  interpreted : Bool

/-! ### Registries -/

namespace Registry

variable {R S : Registry} {entry : TemplateEntry} {bare : Bool} {key : String}

/-- To register under a free name is to define the name. -/
theorem register_eq_define (h : Keyed.contains entry.name R = false) :
    R.register entry = R.define entry := by
  unfold define Keyed.insertNew
  rw [h]
  rfl

/-- A name is taken after a registration if it was before or is the new one. -/
theorem contains_register : Keyed.contains key (R.register entry) =
    (decide (key = entry.name) || Keyed.contains key R) := by
  unfold Keyed.contains register
  by_cases h : key = entry.name
  · rw [h, Keyed.find?_insert_self]
    simp
  · rw [Keyed.find?_insert_ne h]
    simp [h]

/-- Free names stay free when something is registered under another one. -/
theorem free_register {rs : List Registration} (hentry : entry.name ∉ rs.map Registration.name)
    (hfree : ∀ r ∈ rs, Keyed.contains r.name R = false) :
    ∀ r ∈ rs, Keyed.contains r.name (R.register entry) = false := by
  intro r hr
  rw [contains_register, hfree r hr, Bool.or_false, decide_eq_false_iff_not]
  exact fun hname => hentry (hname ▸ List.mem_map_of_mem hr)

/-- The new name can be called where the analysis of its body says so. -/
theorem callable_register_self : (R.register entry).Callable bare entry.name ↔
    (if bare then entry.traits.isInlinable else entry.traits.isDeterministic) = true := by
  unfold Callable register
  rw [Keyed.find?_insert_self]
  simp

/-- What could be called under another name still can be. -/
theorem callable_register_ne (h : key ≠ entry.name) :
    (R.register entry).Callable bare key ↔ R.Callable bare key := by
  unfold Callable register
  rw [Keyed.find?_insert_ne h]

end Registry

/-- What is known of an expression depends on which templates may be called. -/
theorem Expr.determinacy_congr {operations : Operations} {R S : Registry}
    (h : ∀ bare key, R.Callable bare key ↔ S.Callable bare key) (e : Expr) (known : Bool) :
    e.determinacy operations R known = e.determinacy operations S known := by
  rw [Bool.eq_iff_iff]
  exact ⟨Fixed.mono (fun bare key => (h bare key).mp) id e,
    Fixed.mono (fun bare key => (h bare key).mpr) id e⟩

namespace Engine

/-- Registers expressions one after the other. One that cannot be built is left out; the others are
returned. -/
def registerEach (engine : Engine) (depth : Nat) : List Registration → EvalM (List Registration)
  | [] => return []
  | r :: rs => do
    match ← EvalM.attempt (engine.registerExpr depth r.name r.body r.interpreted) with
    | some () => return r :: (← registerEach engine depth rs)
    | none => registerEach engine depth rs

/-- Registers an expression to be walked. -/
def walk (engine : Engine) (L : Registry) (r : Registration) : Registry :=
  L.register (TemplateEntry.interpreted engine.operations L r.name r.body)

/-- The registry of expressions that are all walked. -/
def walks (engine : Engine) (rs : List Registration) : Registry :=
  rs.foldl engine.walk []

variable {engine : Engine} {refusal : Error} {final L R : Registry} {margin : Nat}

/-! ### One registration -/

/-- What folding keeps is kept by building. -/
theorem FoldKeeps.build (h : FoldKeeps engine fun _ E => E.templates = R) {depth : Nat} {e : Expr}
    {E E' : Effects} {r : Except Error Fragment} (hE : E.templates = R)
    (hbuild : engine.build depth e E = some (r, E')) : E'.templates = R := by
  have hkeeps : (Conduct.keeping (· = R) fun _ => True).Holds (engine.build depth e) :=
    Conduct.build engine depth (fun _ => Conduct.keeping_ofExcept fun _ _ => trivial)
      Conduct.keeping_templates
      (fun e _ _ _ hE htry => ⟨h _ _ _ _ _ hE htry, fun _ _ => trivial⟩) e
  exact (hkeeps hE hbuild).1

/-- The entry that a registration makes: its expression is walked, or has been built. -/
inductive Registers (engine : Engine) (depth : Nat) (r : Registration) (E : Effects) :
    TemplateEntry → Prop
  | interpreted :
      Registers engine depth r E
        (TemplateEntry.interpreted engine.operations E.templates r.name r.body)
  | compiled {f : Fragment} {E' : Effects} : engine.build depth r.body E = some (.ok f, E') →
      Registers engine depth r E
        (TemplateEntry.compiled engine.operations E.templates r.name r.body f)

section Registers

variable {depth : Nat} {r : Registration} {E E' : Effects} {y : TemplateEntry}

/-- The entry of a registration has its name. -/
theorem Registers.name_eq (h : engine.Registers depth r E y) : y.name = r.name := by
  cases h <;> rfl

/-- The entry of a registration is one of its body, over the registry that it was made in. -/
theorem Registers.entryOf (h : engine.Registers depth r E y) :
    engine.EntryOf E.templates r.body y := by
  cases h with
  | interpreted => exact .interpreted r.name
  | compiled hbuild => exact .compiled r.name ⟨depth, E, _, trivial, hbuild⟩

/-- A registration that fails changes no template. -/
theorem registerExpr_error (hkeeps : FoldKeeps engine fun _ F => F.templates = E.templates)
    {err : Error}
    (h : engine.registerExpr depth r.name r.body r.interpreted E = some (.error err, E')) :
    E'.templates = E.templates := by
  unfold registerExpr buildEntry at h
  cases hinterpreted : r.interpreted <;> rw [hinterpreted] at h
  · simp only [Bool.false_eq_true, if_false, EvalM.bind_apply] at h
    rcases hbuild : engine.build depth r.body E with _ | ⟨err | f, E₁⟩ <;> rw [hbuild] at h <;>
      cases h
    exact hkeeps.build rfl hbuild
  · cases h

/-- A registration that does not fail registers an entry of its expression. -/
theorem registerExpr_ok (hkeeps : FoldKeeps engine fun _ F => F.templates = E.templates)
    (h : engine.registerExpr depth r.name r.body r.interpreted E = some (.ok (), E')) :
    ∃ y, engine.Registers depth r E y ∧ E'.templates = E.templates.register y := by
  unfold registerExpr buildEntry at h
  cases hinterpreted : r.interpreted <;> rw [hinterpreted] at h
  · simp only [Bool.false_eq_true, if_false, EvalM.bind_apply] at h
    rcases hbuild : engine.build depth r.body E with _ | ⟨err | f, E₁⟩ <;> rw [hbuild] at h <;>
      cases h
    refine ⟨_, .compiled hbuild, ?_⟩
    show E₁.templates.register _ = _
    rw [hkeeps.build rfl hbuild]
  · cases h
    exact ⟨_, .interpreted, rfl⟩

end Registers

/-- A registration that succeeds is kept. -/
theorem registerEach_cons_ok {depth : Nat} {r : Registration} {rs : List Registration}
    {E E₁ : Effects}
    (h : engine.registerExpr depth r.name r.body r.interpreted E = some (.ok (), E₁)) :
    engine.registerEach depth (r :: rs) E =
      (do return r :: (← engine.registerEach depth rs) : EvalM (List Registration)) E₁ := by
  rw [registerEach, EvalM.bind_apply, EvalM.attempt, h]
  rfl

/-- A registration that fails is left out. -/
theorem registerEach_cons_error {depth : Nat} {r : Registration} {rs : List Registration}
    {E E₁ : Effects} {err : Error}
    (h : engine.registerExpr depth r.name r.body r.interpreted E = some (.error err, E₁)) :
    engine.registerEach depth (r :: rs) E = engine.registerEach depth rs E₁ := by
  rw [registerEach, EvalM.bind_apply, EvalM.attempt, h]
  rfl

/-- The first of several registrations fails or succeeds, and is returned when it succeeds. -/
theorem registerEach_cons {depth : Nat} {r : Registration} {rs kept : List Registration}
    {E E' : Effects} (h : engine.registerEach depth (r :: rs) E = some (.ok kept, E')) :
    (∃ err E₁, engine.registerExpr depth r.name r.body r.interpreted E = some (.error err, E₁) ∧
        engine.registerEach depth rs E₁ = some (.ok kept, E')) ∨
      ∃ E₁ kept', engine.registerExpr depth r.name r.body r.interpreted E = some (.ok (), E₁) ∧
        engine.registerEach depth rs E₁ = some (.ok kept', E') ∧ kept = r :: kept' := by
  rcases hr : engine.registerExpr depth r.name r.body r.interpreted E with _ | ⟨err | ⟨⟨⟩⟩, E₁⟩
  · rw [registerEach, EvalM.bind_apply, EvalM.attempt, hr] at h
    cases h
  · rw [registerEach_cons_error hr] at h
    exact .inl ⟨err, E₁, rfl, h⟩
  · rw [registerEach_cons_ok hr] at h
    obtain ⟨kept', E₂, hrest, h⟩ := EvalM.bind_eq_ok h
    cases h
    exact .inr ⟨E₁, kept', rfl, hrest, rfl⟩

/-- What is kept of some registrations is some of them. -/
theorem registerEach_sublist {depth : Nat} {rs kept : List Registration} {E E' : Effects}
    (h : engine.registerEach depth rs E = some (.ok kept, E')) : kept.Sublist rs := by
  induction rs generalizing E kept with
  | nil =>
    cases h
    exact .slnil
  | cons r rs ih =>
    rcases registerEach_cons h with ⟨err, E₁, -, hrest⟩ | ⟨E₁, kept', -, hrest, rfl⟩
    · exact (ih hrest).cons r
    · exact (ih hrest).cons_cons r

/-! ### Registries with the same names -/

/-- The second registry has come about by registering every name once, and it has the names of the
first one, with the same known about each of them. -/
structure Reflects (engine : Engine) (L R : Registry) : Prop where
  grown : engine.Grown R
  names : ∀ key, Keyed.contains key L = Keyed.contains key R
  flags : ∀ bare key, L.Callable bare key ↔ R.Callable bare key

/-- Nothing reflects nothing. -/
theorem Reflects.empty : engine.Reflects [] [] where
  grown := .empty
  names _ := rfl
  flags _ _ := Iff.rfl

/-- Registries that reflect the same walked entries concede each other. -/
theorem Reflects.concedes {R S : Registry} {engine' : Engine} (h : engine.Reflects L R)
    (h' : engine'.Reflects L S) : R.Concedes S :=
  fun bare key hcallable => (h'.flags bare key).mp ((h.flags bare key).mpr hcallable)

/-- A name is taken after a walked registration if it was before or is the new one. -/
theorem contains_walk {r : Registration} {key : String} :
    Keyed.contains key (engine.walk L r) = (decide (key = r.name) || Keyed.contains key L) :=
  Registry.contains_register

/-- The new name of a walked registration can be called where its body is called deterministic. -/
theorem callable_walk_self {r : Registration} {bare : Bool} :
    (engine.walk L r).Callable bare r.name ↔ r.body.Fixed engine.operations L (!bare) := by
  have h : (engine.walk L r).Callable bare
      (TemplateEntry.interpreted engine.operations L r.name r.body).name ↔ _ :=
    Registry.callable_register_self
  refine h.trans ?_
  cases bare <;> exact Iff.rfl

/-- What could be called under another name still can be after a walked registration. -/
theorem callable_walk_ne {r : Registration} {bare : Bool} {key : String} (h : key ≠ r.name) :
    (engine.walk L r).Callable bare key ↔ L.Callable bare key :=
  Registry.callable_register_ne h

/-- What reflects walked entries still does after one registration on both sides. -/
theorem Reflects.register (h : engine.Reflects L R) {r : Registration} {y : TemplateEntry}
    (hnew : Keyed.contains r.name R = false) (hname : y.name = r.name)
    (hy : engine.EntryOf R r.body y) : engine.Reflects (engine.walk L r) (R.register y) where
  grown := .register h.grown (hname ▸ hnew) (.refl R) hy
  names key := by rw [contains_walk, Registry.contains_register, h.names key, hname]
  flags := by
    intro bare key
    by_cases hkey : key = r.name
    · obtain ⟨hdeterministic, hinlinable⟩ := hy.traits
      rw [hkey, callable_walk_self, ← hname, Registry.callable_register_self, hdeterministic,
        hinlinable, ← Expr.determinacy_congr h.flags, ← Expr.determinacy_congr h.flags]
      cases bare <;> exact Iff.rfl
    · rw [callable_walk_ne hkey, Registry.callable_register_ne (hname ▸ hkey)]
      exact h.flags bare key

/-- What is registered to be walked under free names takes nothing away. -/
theorem walk_within {ks : List Registration} (hnames : (ks.map Registration.name).Nodup)
    (hfree : ∀ r ∈ ks, Keyed.contains r.name L = false) : L.Within (ks.foldl engine.walk L) := by
  induction ks generalizing L with
  | nil => exact .refl L
  | cons r ks ih =>
    rw [List.map_cons, List.nodup_cons] at hnames
    have hfirst : L.Within (engine.walk L r) :=
      Registry.within_register (hfree r List.mem_cons_self)
    exact hfirst.trans (ih hnames.2 (Registry.free_register hnames.1 fun k hk =>
      hfree k (List.mem_cons_of_mem _ hk)))

/-! ### Registered templates that run as walks -/

/-- The second registry reflects the first one, the entries of the two run alike, and what is called
deterministic in the first one has been made of such expressions. -/
structure Stage (engine : Engine) (refusal : Error) (final L : Registry) (margin : Nat)
    (R : Registry) : Prop extends Reflects engine L R where
  mirror : Registry.Related (engine.Mirror refusal final L margin) L R
  vouched : ∀ bare key entry, L.Callable bare key → Keyed.find? key L = some entry →
    engine.Vouched refusal final L (!bare) entry.body.code
  concedes_final : L.Concedes final

/-- Code that can be vouched for still can be over what is conceded more. -/
theorem Vouched.mono {S : Registry} (hLS : L.Concedes S) {known : Bool} {c : Code}
    (h : engine.Vouched refusal final L known c) : engine.Vouched refusal final S known c := by
  obtain ⟨d, e, hc, hd, hopen, he⟩ := h
  exact ⟨d, e, hc, hd, hopen, he.mono hLS id⟩

/-- What is built over a stage fits its expression, with a margin that is greater by how deep calls
could nest when it was built. -/
theorem Stage.fits (h : engine.Stage refusal final L margin R) (hsync : engine.MethodsSync)
    {depth : Nat} {e : Expr} {f : Fragment} {E E' : Effects} (hE : E.templates = R)
    (hbuild : engine.build depth e E = some (.ok f, E')) :
    engine.Fits refusal final L (depth + margin) e f := by
  refine ⟨L, R, depth, .refl L, h.grown.foldKeeps.builtOver depth, fun e v hopen hfold => ?_,
    depth, E, E', ⟨rfl, hE⟩, hbuild⟩
  refine (sound_vouched h.concedes_final h.vouched).stands hsync h.mirror ?_ hfold
  exact ⟨.walked e, e, rfl, .walked, hopen,
    hfold.fixed.mono (fun bare key => (h.flags bare key).mpr) id⟩

/-- The stage at which nothing is registered. -/
theorem Stage.empty : engine.Stage refusal final [] 0 [] where
  toReflects := .empty
  mirror := .nil
  vouched _ _ _ h := nomatch h
  concedes_final := by
    rintro bare key ⟨entry, hfind, -⟩
    cases hfind

/-- A registration under a free name leads from one stage to the next. -/
theorem Stage.register {E : Effects} (h : engine.Stage refusal final L margin E.templates)
    (hsync : engine.MethodsSync) {depth : Nat} {r : Registration} {y : TemplateEntry}
    (hy : engine.Registers depth r E y) (hnew : Keyed.contains r.name E.templates = false)
    (hopen : r.body.SectionsOpen engine.operations final)
    (hfinal : (engine.walk L r).Concedes final) :
    engine.Stage refusal final (engine.walk L r) (depth + margin) (E.templates.register y) := by
  have hname := hy.name_eq
  have hnewL : Keyed.contains r.name L = false := (h.names r.name).trans hnew
  have hwithin : L.Within (engine.walk L r) := Registry.within_register hnewL
  have hmirror : engine.Mirror refusal final L (depth + margin)
      (TemplateEntry.interpreted engine.operations L r.name r.body) y := by
    cases hy with
    | interpreted => exact .same ⟨rfl, rfl⟩
    | compiled hbuild => exact .built rfl rfl rfl rfl hopen (h.fits hsync rfl hbuild)
  refine ⟨h.toReflects.register hnew hname hy.entryOf, ?_, ?_, hfinal⟩
  · have hmono : Registry.Related (engine.Mirror refusal final (engine.walk L r) (depth + margin)) L
        E.templates :=
      List.Forall₂.imp (fun _ _ hab => ⟨hab.1, hab.2.mono hwithin (Nat.le_add_left _ _)⟩) h.mirror
    have hwalk : engine.walk L r =
        L.define (TemplateEntry.interpreted engine.operations L r.name r.body) :=
      Registry.register_eq_define hnewL
    have hnext := hmono.define hname.symm (hmirror.mono hwithin (Nat.le_refl _))
    rwa [← hwalk, ← Registry.register_eq_define (hname ▸ hnew)] at hnext
  · intro bare key entry hcallable hfind
    by_cases hkey : key = r.name
    · subst hkey
      have hself : entry = TemplateEntry.interpreted engine.operations L r.name r.body :=
        (Option.some.inj (Keyed.find?_insert_self _ _ _ ▸ hfind)).symm
      subst hself
      refine ⟨.walked r.body, r.body, rfl, .walked, hopen, ?_⟩
      exact (callable_walk_self.mp hcallable).mono hwithin.concedes id
    · have hold : Keyed.find? key L = some entry := Keyed.find?_insert_ne hkey _ _ ▸ hfind
      have hcallable' : L.Callable bare key := (callable_walk_ne hkey).mp hcallable
      exact (h.vouched bare key entry hcallable' hold).mono hwithin.concedes

/-- Registering expressions leads from a stage to the last one. -/
theorem Stage.registerEach (hsync : engine.MethodsSync) {depth : Nat} {rs kept : List Registration}
    {E E' : Effects} (h : engine.Stage refusal final L margin E.templates)
    (hnames : (rs.map Registration.name).Nodup)
    (hfree : ∀ r ∈ rs, Keyed.contains r.name E.templates = false)
    (hrun : engine.registerEach depth rs E = some (.ok kept, E'))
    (hopen : ∀ r ∈ kept, r.body.SectionsOpen engine.operations final)
    (hfinal : kept.foldl engine.walk L = final) :
    engine.Stage refusal final final (depth * kept.length + margin) E'.templates := by
  induction rs generalizing L margin E kept with
  | nil =>
    cases hrun
    obtain rfl : L = final := hfinal
    rwa [List.length_nil, Nat.mul_zero, Nat.zero_add]
  | cons r rs ih =>
    rw [List.map_cons, List.nodup_cons] at hnames
    rcases registerEach_cons hrun with ⟨err, E₁, hr, hrest⟩ | ⟨E₁, kept, hr, hrest, rfl⟩
    · have hE₁ := registerExpr_error h.grown.foldKeeps hr
      rw [← hE₁] at h hfree
      exact ih h hnames.2 (fun k hk => hfree k (List.mem_cons_of_mem _ hk)) hrest hopen hfinal
    · obtain ⟨y, hy, hE₁⟩ := registerExpr_ok h.grown.foldKeeps hr
      have hnew := hfree r List.mem_cons_self
      have hrestFree := Registry.free_register (hy.name_eq ▸ hnames.1) fun k hk =>
        hfree k (List.mem_cons_of_mem _ hk)
      have hsublist := registerEach_sublist hrest
      have hreflects := h.toReflects.register hnew hy.name_eq hy.entryOf
      have hwithin : (engine.walk L r).Within final := by
        rw [← hfinal]
        refine walk_within ((hsublist.map Registration.name).nodup hnames.2) fun k hk => ?_
        rw [hreflects.names]
        exact hrestFree k (hsublist.subset hk)
      have hnext := h.register hsync hy hnew (hopen r List.mem_cons_self) hwithin.concedes
      rw [← hE₁] at hnext hrestFree
      rw [List.length_cons, Nat.mul_succ, Nat.add_assoc]
      exact ih hnext hnames.2 hrestFree hrest (fun k hk => hopen k (List.mem_cons_of_mem _ hk))
        hfinal

/-! ### With folding and without -/

/-- An expression is registered with folding exactly when it is without. -/
theorem registerExpr_along (hquiet : engine.MethodsQuiet) {S : Registry} (hR : engine.Reflects L R)
    (hS : engine.unfolding.Reflects L S) {depth : Nat} (hdepth : R.length ≤ depth)
    (r : Registration)
    {E F : Effects} (hE : E.templates = R) (hF : F.templates = S) (hlog : E.log = F.log) :
    (∃ err E' F', engine.registerExpr depth r.name r.body r.interpreted E = some (.error err, E') ∧
        engine.unfolding.registerExpr depth r.name r.body r.interpreted F = some (.error err, F') ∧
        E'.log = F'.log) ∨
      ∃ E' F', engine.registerExpr depth r.name r.body r.interpreted E = some (.ok (), E') ∧
        engine.unfolding.registerExpr depth r.name r.body r.interpreted F = some (.ok (), F') ∧
        E'.log = F'.log := by
  unfold registerExpr buildEntry
  cases r.interpreted with
  | true => exact .inr ⟨_, _, rfl, rfl, hlog⟩
  | false =>
    have hjoint := build_along hquiet hR.grown (hR.concedes hS) hdepth r.body
      (show (alongside R S).rel E F from ⟨hE, hF, hlog⟩)
    simp only [Bool.false_eq_true, if_false, EvalM.bind_apply]
    generalize engine.build depth r.body E = o at hjoint ⊢
    generalize engine.unfolding.build depth r.body F = p at hjoint ⊢
    cases hjoint with
    | ok _ hrel => exact .inr ⟨_, _, rfl, rfl, hrel.2.2⟩
    | error hrel => exact .inl ⟨_, _, _, rfl, rfl, hrel.2.2⟩
    | excused h => exact h.elim
    | hang h => exact h.elim
    | lag h => exact h.elim
    | lead h => exact h.elim

/-- The same expressions are registered with folding and without. -/
theorem registerEach_along (hquiet : engine.MethodsQuiet) {depth : Nat} {rs : List Registration}
    {E F : Effects} (hE : engine.Reflects L E.templates)
    (hF : engine.unfolding.Reflects L F.templates)
    (hlog : E.log = F.log) (hnames : (rs.map Registration.name).Nodup)
    (hfree : ∀ r ∈ rs, Keyed.contains r.name E.templates = false)
    (hdepth : E.templates.length + rs.length ≤ depth) :
    ∃ kept E' F', engine.registerEach depth rs E = some (.ok kept, E') ∧
      engine.unfolding.registerEach depth rs F = some (.ok kept, F') ∧
      engine.Reflects (kept.foldl engine.walk L) E'.templates ∧
      engine.unfolding.Reflects (kept.foldl engine.walk L) F'.templates ∧
      E'.log = F'.log ∧ E'.templates.length ≤ depth := by
  induction rs generalizing L E F with
  | nil => exact ⟨[], E, F, rfl, rfl, hE, hF, hlog, hdepth⟩
  | cons r rs ih =>
    rw [List.map_cons, List.nodup_cons] at hnames
    rw [List.length_cons] at hdepth
    have hlength : E.templates.length ≤ depth := by omega
    rcases registerExpr_along hquiet hE hF hlength r rfl rfl hlog with
      ⟨err, E₁, F₁, hrE, hrF, hlog₁⟩ | ⟨E₁, F₁, hrE, hrF, hlog₁⟩
    · rw [registerEach_cons_error hrE, registerEach_cons_error hrF]
      have hE₁ := registerExpr_error hE.grown.foldKeeps hrE
      have hF₁ := registerExpr_error hF.grown.foldKeeps hrF
      rw [← hE₁] at hE hfree hdepth
      rw [← hF₁] at hF
      exact ih hE hF hlog₁ hnames.2 (fun k hk => hfree k (List.mem_cons_of_mem _ hk)) (by omega)
    · obtain ⟨x, hx, hE₁⟩ := registerExpr_ok hE.grown.foldKeeps hrE
      obtain ⟨y, hy, hF₁⟩ := registerExpr_ok hF.grown.foldKeeps hrF
      have hnew := hfree r List.mem_cons_self
      have hnewF : Keyed.contains r.name F.templates = false :=
        ((hF.names r.name).symm.trans (hE.names r.name)).trans hnew
      have hlonger := Registry.length_register (hx.name_eq ▸ hnew)
      have hnextFree := Registry.free_register (hx.name_eq ▸ hnames.1) fun k hk =>
        hfree k (List.mem_cons_of_mem _ hk)
      have hnextE := hE.register hnew hx.name_eq hx.entryOf
      have hnextF := hF.register hnewF hy.name_eq hy.entryOf
      rw [← hE₁] at hnextE hnextFree hlonger
      rw [← hF₁] at hnextF
      obtain ⟨kept, E', F', hrestE, hrestF, h⟩ :=
        ih hnextE hnextF hlog₁ hnames.2 hnextFree (by omega)
      refine ⟨r :: kept, E', F', ?_, ?_, h⟩
      · rw [registerEach_cons_ok hrE, EvalM.bind_apply, hrestE]
        rfl
      · rw [registerEach_cons_ok hrF, EvalM.bind_apply, hrestF]
        rfl

/-- Where no method has to be awaited, a template is built as soon as its expression is. -/
theorem buildTemplate_of_build (hsync : engine.MethodsSync) {depth : Nat} {e : Expr} {f : Fragment}
    {E E' : Effects} (h : engine.build depth e E = some (.ok f, E')) :
    engine.buildTemplate depth .compiledSync e E =
      some (.ok { mode := .sync, body := .compiled f }, E') := by
  have hshape : f.shape ≤ .dual :=
    BuildsIn.shape_le_dual foldKeeps_true e f ⟨depth, E, E', trivial, h⟩
      fun c _ m hm => hsync c.1 m hm
  have hcheck : checkFragment .sync f = .ok () := by
    unfold checkFragment Fragment.supportsSync
    rw [if_neg]
    intro hasync
    simp only [true_and, Bool.not_eq_true', decide_eq_false_iff_not, not_not] at hasync
    rw [hasync] at hshape
    exact absurd hshape (by decide)
  unfold buildTemplate Strategy.compiledSync
  simp only [if_true, EvalM.bind_apply, h, hcheck]
  rfl

/-- What cannot be built cannot be compiled. -/
theorem buildTemplate_of_error {depth : Nat} {e : Expr} {err : Error} {E E' : Effects}
    (h : engine.build depth e E = some (.error err, E')) :
    engine.buildTemplate depth .compiledSync e E = some (.error err, E') := by
  unfold buildTemplate Strategy.compiledSync
  simp only [if_true, EvalM.bind_apply, h]

/-- What is built to be compiled is what is built from the expression. -/
theorem compiled_of_buildTemplate {depth : Nat} {e : Expr} {T : Template} {E E' : Effects}
    (h : engine.buildTemplate depth .compiledSync e E = some (.ok T, E')) :
    ∃ f, T = { mode := .sync, body := .compiled f } ∧
      engine.build depth e E = some (.ok f, E') := by
  unfold buildTemplate Strategy.compiledSync at h
  simp only [if_true] at h
  obtain ⟨f, E₁, hf, h⟩ := EvalM.bind_eq_ok h
  obtain ⟨_, E₂, hcheck, h⟩ := EvalM.bind_eq_ok h
  obtain rfl : E₁ = E₂ := congrArg Prod.snd (Option.some.inj hcheck)
  cases h
  exact ⟨f, rfl, hf⟩

/-- Templates run alike on engines that differ only in whether they fold. -/
theorem runTemplate_congr {engine engine' : Engine}
    (hoperations : engine.operations = engine'.operations)
    (hunroll : engine.settings.unroll = engine'.settings.unroll) (depth : Nat) :
    engine.runTemplate depth = engine'.runTemplate depth := by
  induction depth with
  | zero => rfl
  | succ depth ih =>
    funext mode body
    rw [runTemplate_succ, runTemplate_succ]
    unfold host
    rw [ih, hoperations, hunroll]

/-- What a template shows depends on the operations of the engine and on how it runs short loops
alone. -/
theorem shown_congr {engine engine' : Engine} (hoperations : engine.operations = engine'.operations)
    (hunroll : engine.settings.unroll = engine'.settings.unroll) (depth : Nat) (T : Template)
    (data : Value) (E : Effects) : T.shown engine depth data E = T.shown engine' depth data E := by
  unfold Template.shown Template.render
  rw [runTemplate_congr hoperations hunroll]

/-- The template that walks through an expression. -/
def walking (engine : Engine) (e : Expr) : Template :=
  { mode := .sync, body := engine.interpretedBody e }

/-- A walked template is the walk of its expression, and building it changes nothing. -/
theorem walking_of_buildTemplate {depth : Nat} {e : Expr} {U : Template} {E E' : Effects}
    (h : engine.buildTemplate depth .interpreted e E = some (.ok U, E')) :
    U = engine.walking e ∧ E' = E := by
  unfold buildTemplate Strategy.interpreted at h
  simp only [Bool.false_eq_true, if_false] at h
  obtain ⟨_, E₁, hcheck, h⟩ := EvalM.bind_eq_ok h
  obtain rfl : E = E₁ := congrArg Prod.snd (Option.some.inj hcheck)
  cases h
  exact ⟨rfl, rfl⟩

/-- The walk through the expression refuses on the watched engine, with the walks through registered
expressions: somewhere a method is given arguments whose marks its answer hangs on. -/
def Refuses (engine : Engine) (refusal : Error) (L : Registry) (e : Expr) (depth : Nat)
    (data : Value) : Prop :=
  ∃ log, (engine.walking e).shown (engine.watched refusal) depth data { templates := L } =
    some { result := .error refusal, log }

/-- Watching shows the same on engines that differ only in whether they fold. -/
theorem shown_watched_congr {engine engine' : Engine}
    (hoperations : engine.operations = engine'.operations)
    (hunroll : engine.settings.unroll = engine'.settings.unroll) (refusal : Error) (depth : Nat)
    (T : Template) (data : Value) (E : Effects) :
    T.shown (engine.watched refusal) depth data E =
      T.shown (engine'.watched refusal) depth data E :=
  @shown_congr (engine.watched refusal) (engine'.watched refusal)
    (congrArg (Keyed.mapValues (Operation.watched refusal)) hoperations) hunroll depth T data E

/-- What refuses depends on the operations of the engine and on how it runs short loops alone. -/
theorem Refuses.congr {engine engine' : Engine}
    (hoperations : engine.operations = engine'.operations)
    (hunroll : engine.settings.unroll = engine'.settings.unroll) {e : Expr}
    {depth : Nat} {data : Value}
    (h : engine.Refuses refusal L e depth data) : engine'.Refuses refusal L e depth data := by
  obtain ⟨log, h⟩ := h
  have hwalking : engine'.walking e = engine.walking e := by
    unfold walking interpretedBody
    rw [hoperations]
  rw [shown_watched_congr hoperations hunroll, ← hwalking] at h
  exact ⟨log, h⟩

/-- Two templates run as the walk through an expression, on engines that differ only in whether they
fold. Then the first one shows what the second one shows, unless the walk refuses. Where the second
engine folds, the calls of the first template have to nest deeper by a gap. -/
theorem shown_along {engine engine' : Engine} (hoperations : engine.operations = engine'.operations)
    (hunroll : engine.settings.unroll = engine'.settings.unroll) (hsync : engine.MethodsSync)
    {e : Expr}
    {T U : Template} (hT : T.mode = .sync) (hU : U.mode = .sync) {margin margin' gap : Nat}
    (hgap : engine'.settings.fold = true → margin' ≤ gap)
    (hruns : engine.Runs refusal final L margin (.walked e) T.body.code)
    (hruns' : engine'.Runs refusal final L margin' (.walked e) U.body.code)
    {E F : Effects}
    (hmirror : Registry.Related (engine.Mirror refusal final L margin) L E.templates)
    (hmirror' : Registry.Related (engine'.Mirror refusal final L margin') L F.templates)
    {depth : Nat} {data : Value} {o : Outcome String}
    (hshown : U.shown engine' depth data F = some o) :
    (∃ p, T.shown engine (depth + gap) data E = some p ∧ p.Same engine.MethodsQuiet o) ∨
      engine.Refuses refusal L e (depth + gap) data := by
  have hsync' : engine'.MethodsSync := by
    unfold MethodsSync
    rwa [← hoperations]
  obtain ⟨o', hreference, hwalked⟩ :=
    Template.reference_of_shown (T := engine.walking e) (E := { templates := L }) hsync' hgap rfl hU
      hruns' hmirror' (.refl L) hshown
  rw [shown_watched_congr hoperations.symm hunroll.symm] at hreference
  have hrefuses : o'.result = .error refusal → engine.Refuses refusal L e (depth + gap) data := by
    obtain ⟨result, log⟩ := o'
    rintro rfl
    exact ⟨log, hreference⟩
  rcases hwalked with hrefused | hwalked
  · exact .inr (hrefuses hrefused)
  · rcases Template.shown_of_reference hsync rfl hT hruns hmirror (.refl L) hreference with
      hrefused | ⟨p, hp, hsame⟩
    · exact .inr (hrefuses hrefused)
    · refine .inl ⟨p, hp, hsame.trans ?_⟩
      unfold MethodsQuiet
      rwa [hoperations]

/-- Over two stages of engines that differ only in whether they fold, two templates that are built
from an expression show the same, unless the walk through the expression refuses. -/
theorem Stage.shown {engine engine' : Engine} (hoperations : engine.operations = engine'.operations)
    (hunroll : engine.settings.unroll = engine'.settings.unroll) {margin margin' gap depth : Nat}
    (hgap : engine'.settings.fold = true → depth + margin' ≤ gap) {E F : Effects}
    (hE : engine.Stage refusal final final margin E.templates)
    (hF : engine'.Stage refusal final final margin' F.templates) (hsync : engine.MethodsSync)
    (hquiet : engine.MethodsQuiet) {e : Expr} (hopen : e.SectionsOpen engine.operations final)
    {f g : Fragment} {E' F' : Effects} (hf : engine.build depth e E = some (.ok f, E'))
    (hg : engine'.build depth e F = some (.ok g, F')) {depth' : Nat} {data : Value}
    {o : Outcome String}
    (hshown : Template.shown engine' depth' { mode := .sync, body := .compiled g } data F' =
      some o) :
    Template.shown engine (depth' + gap) { mode := .sync, body := .compiled f } data E' = some o ∨
      engine.Refuses refusal final e (depth' + gap) data := by
  have hsync' : engine'.MethodsSync := by
    unfold MethodsSync
    rwa [← hoperations]
  have hruns : engine.Runs refusal final final (depth + margin) (.walked e) (.built f) :=
    .built hopen (hE.fits hsync rfl hf)
  have hruns' : engine'.Runs refusal final final (depth + margin') (.walked e) (.built g) :=
    .built (hoperations ▸ hopen) (hF.fits hsync' rfl hg)
  have hmirror := hE.mirror.imp fun _ _ h =>
    And.imp_right (Mirror.mono (.refl final) (Nat.le_add_left margin depth)) h
  have hmirror' := hF.mirror.imp fun _ _ h =>
    And.imp_right (Mirror.mono (.refl final) (Nat.le_add_left margin' depth)) h
  rw [← hE.grown.foldKeeps.build rfl hf] at hmirror
  rw [← hF.grown.foldKeeps.build rfl hg] at hmirror'
  refine (shown_along (T := { mode := .sync, body := .compiled f })
    (U := { mode := .sync, body := .compiled g })
    hoperations hunroll hsync rfl rfl hgap hruns hruns' hmirror hmirror' hshown).imp_left ?_
  rintro ⟨p, hp, hsame⟩
  rw [hp, hsame.eq hquiet]

/-- The same templates are registered with folding and without, and a template that is built from an
expression over them fails in the same way or is built with both. In the latter case it shows with
folding whatever it shows without, unless the walk through its expression refuses. The converse
holds as well, where calls may nest deeper by some margin without folding, because what is a
constant with it is evaluated then. No section may be over something deterministic. -/
theorem folding_unnoticed (engine : Engine) (hsync : engine.MethodsSync)
    (hquiet : engine.MethodsQuiet) {rs : List Registration}
    (hnames : (rs.map Registration.name).Nodup) {depth : Nat} (hdepth : rs.length ≤ depth) :
    ∃ kept E F, engine.registerEach depth rs {} = some (.ok kept, E) ∧
      engine.unfolding.registerEach depth rs {} = some (.ok kept, F) ∧
      ∀ e, (∃ err E' F', engine.buildTemplate depth .compiledSync e E = some (.error err, E') ∧
          engine.unfolding.buildTemplate depth .compiledSync e F = some (.error err, F')) ∨
        ∃ T U E' F', engine.buildTemplate depth .compiledSync e E = some (.ok T, E') ∧
          engine.unfolding.buildTemplate depth .compiledSync e F = some (.ok U, F') ∧
          ((∀ body ∈ e :: kept.map Registration.body,
              body.SectionsOpen engine.operations (engine.walks kept)) →
            (∀ refusal depth' data o, U.shown engine.unfolding depth' data F' = some o →
              T.shown engine depth' data E' = some o ∨
                engine.Refuses refusal (engine.walks kept) e depth' data) ∧
            ∃ margin, ∀ refusal depth' data o, T.shown engine depth' data E' = some o →
              U.shown engine.unfolding (depth' + margin) data F' = some o ∨
                engine.Refuses refusal (engine.walks kept) e (depth' + margin) data) := by
  obtain ⟨kept, E, F, hE, hF, hR, hS, hlog, hlength⟩ :=
    registerEach_along hquiet (E := {}) (F := {}) .empty .empty rfl hnames (fun _ _ => rfl)
      (by simpa using hdepth)
  refine ⟨kept, E, F, hE, hF, fun e => ?_⟩
  have hjoint := build_along hquiet hR.grown (hR.concedes hS) hlength e
    (show (alongside E.templates F.templates).rel E F from ⟨rfl, rfl, hlog⟩)
  generalize hf : engine.build depth e E = o at hjoint
  generalize hg : engine.unfolding.build depth e F = p at hjoint
  cases hjoint with
  | error => exact .inl ⟨_, _, _, buildTemplate_of_error hf, buildTemplate_of_error hg⟩
  | ok =>
    have hsync' : engine.unfolding.MethodsSync := hsync
    have hquiet' : engine.unfolding.MethodsQuiet := hquiet
    refine .inr ⟨_, _, _, _, buildTemplate_of_build hsync hf, buildTemplate_of_build hsync' hg, ?_⟩
    intro hopen
    have hkept : ∀ r ∈ kept, r.body.SectionsOpen engine.operations (engine.walks kept) :=
      fun r hr => hopen _ (List.mem_cons_of_mem _ (List.mem_map_of_mem hr))
    have hlast := hopen e List.mem_cons_self
    have hstage : ∀ refusal, engine.Stage refusal (engine.walks kept) (engine.walks kept)
        (depth * kept.length) E.templates := fun _ =>
      Stage.registerEach hsync .empty hnames (fun _ _ => rfl) hE hkept rfl
    have hstage' : ∀ refusal, engine.unfolding.Stage refusal (engine.walks kept) (engine.walks kept)
        (depth * kept.length) F.templates := fun _ =>
      Stage.registerEach hsync' .empty hnames (fun _ _ => rfl) hF hkept rfl
    have hoperations : engine.operations = engine.unfolding.operations := rfl
    have hunfolding : ∀ margin, engine.unfolding.settings.fold = true → margin ≤ 0 := nofun
    constructor
    · exact fun refusal depth' data o => (hstage refusal).shown hoperations rfl (hunfolding _)
        (hstage' refusal) hsync hquiet hlast hf hg
    · refine ⟨depth + depth * kept.length, fun refusal depth' data o hshown => ?_⟩
      exact ((hstage' refusal).shown hoperations.symm rfl (fun _ => Nat.le_refl _) (hstage refusal)
        hsync' hquiet' hlast hg hf hshown).imp_right (.congr hoperations.symm rfl)
  | excused h => exact h.elim
  | hang h => exact h.elim
  | lag h => exact h.elim
  | lead h => exact h.elim

/-- A text that is registered, and a template that calls it: with folding it is a constant, and
shows the same. -/
theorem folding_unnoticed_text :
    let engine : Engine := { operations := [("cat", .form .concat), ("partial", .template)] }
    let rs : List Registration := [⟨"P", .call "cat" [.text "a"], false⟩]
    let e : Expr := .call "partial" [.text "P"]
    ∃ E F T U E' F', engine.registerEach 1 rs {} = some (.ok rs, E) ∧
      engine.unfolding.registerEach 1 rs {} = some (.ok rs, F) ∧
      engine.buildTemplate 1 .compiledSync e E = some (.ok T, E') ∧
      engine.unfolding.buildTemplate 1 .compiledSync e F = some (.ok U, F') ∧
      T.body.code.constant? = some (.string "a") ∧ U.body.code.constant? = none ∧
      U.shown engine.unfolding 2 .null F' = some { result := .ok "a" } ∧
      T.shown engine 2 .null E' = some { result := .ok "a" } := by
  intro engine rs e
  have hoperations : ∀ name op, Keyed.find? name engine.operations = some op →
      op = .form .concat ∨ op = .template := by
    intro name op h
    have hmem := Keyed.mem_of_find? h
    simp only [engine, List.mem_cons, Prod.mk.injEq, List.not_mem_nil, or_false] at hmem
    exact hmem.imp And.right And.right
  have hmethods : ∀ name m, Keyed.find? name engine.operations ≠ some (.method m) :=
      fun name m h => by
    rcases hoperations _ _ h with h | h <;> cases h
  have hsections : ∀ name, Keyed.find? name engine.operations ≠ some (.loop .section) :=
      fun name h => by
    rcases hoperations _ _ h with h | h <;> cases h
  have hsync : engine.MethodsSync := fun name m h => absurd h (hmethods name m)
  have hquiet : engine.MethodsQuiet := fun m ⟨_, name, h⟩ => absurd h (hmethods name m)
  have hnames : (rs.map Registration.name).Nodup := List.pairwise_singleton _ _
  obtain ⟨kept, E, F, hE, hF, h⟩ := folding_unnoticed engine hsync hquiet hnames (Nat.le_refl 1)
  cases hE
  cases hF
  rcases h e with ⟨err, E', F', herror, -⟩ | ⟨T, U, E', F', hT, hU, hshows⟩
  · cases herror
  · cases hT
    cases hU
    refine ⟨_, _, _, _, _, _, rfl, rfl, rfl, rfl, rfl, rfl, rfl, ?_⟩
    obtain ⟨hfolding, -⟩ := hshows fun body _ =>
      Expr.sectionsOpen_of_calls (fun c _ => hsections c.1) _
    rcases hfolding (.templateNotFound "") 2 .null _ rfl with hshown | ⟨log, hrefuses⟩
    · exact hshown
    · cases hrefuses

/-- A template is a sequence of what is no number, and two calls of it are compared. With folding it
is one constant, which equals itself; without, each call makes a sequence of its own, and the two
are not equal. -/
theorem one_constant_differs :
    let nan := Float.ofBits 0x7ff8000000000000
    let engine : Engine :=
      { operations := ("partial", .template) :: (Operations.pure ["eq"] Builtin.equal ++
          Operations.pure ["arr"] Builtin.sequence ++ Operations.pure ["nan"] fun _ => .float nan) }
    let rs : List Registration := [⟨"Q", .call "arr" [.call "nan" []], false⟩]
    let e : Expr := .call "eq" [.call "partial" [.text "Q"], .call "partial" [.text "Q"]]
    engine.MethodsSync ∧ engine.MethodsQuiet ∧
      ∃ E F T U E' F', engine.registerEach 1 rs {} = some (.ok rs, E) ∧
        engine.unfolding.registerEach 1 rs {} = some (.ok rs, F) ∧
        engine.buildTemplate 1 .compiledSync e E = some (.ok T, E') ∧
        engine.unfolding.buildTemplate 1 .compiledSync e F = some (.ok U, F') ∧
        T.shown engine 2 .null E' = some { result := .ok "true" } ∧
        U.shown engine.unfolding 2 .null F' = some { result := .ok "false" } := by
  -- The comparison is taken apart first, so that it can be kept as it is below.
  rw [show Builtin.equal = fun args => .bool (Value.looselyEqual (args.get 0) (args.get 1))
    from rfl]
  obtain ⟨same, hsame⟩ : ∃ same, same = Value.looselyEqual := ⟨_, rfl⟩
  rw [← hsame]
  intro nan engine rs e
  have hmethods : ∀ name m, Keyed.find? name engine.operations = some (.method m) →
      ∃ f : Arguments → Value,
        m = { name, deterministic := true, run := fun args => .ok (f args) } := by
    intro name m h
    have hmem := Keyed.mem_of_find? h
    simp only [engine, Operations.pure, List.map_cons, List.map_nil, List.cons_append,
      List.nil_append, List.mem_cons, List.not_mem_nil, or_false, Prod.mk.injEq, reduceCtorEq,
      and_false, false_or, Operation.method.injEq] at hmem
    rcases hmem with ⟨rfl, rfl⟩ | ⟨rfl, rfl⟩ | ⟨rfl, rfl⟩ <;> exact ⟨_, rfl⟩
  have hsync : engine.MethodsSync := by
    intro name m h
    obtain ⟨f, rfl⟩ := hmethods name m h
    rfl
  have hquiet : engine.MethodsQuiet := by
    rintro m ⟨-, name, h⟩ args
    obtain ⟨f, rfl⟩ := hmethods name m h
    rfl
  have hself : (nan == nan) = false :=
    (rfl : (Float.ofBits 0x7ff8000000000000 == Float.ofBits 0x7ff8000000000000) = false)
  have hnan : nan.isNaN = true := (rfl : (Float.ofBits 0x7ff8000000000000).isNaN = true)
  -- The comparison is all that is asked of the number, so nothing below has to compute with it.
  clear_value nan
  have hmarks (m n : Mark) : same (.array m [.float nan]) (.array n [.float nan]) = m.same n := by
    rw [hsame]
    show Value.equalWithin false (.array m [.float nan]) (.array n [.float nan]) = _
    simp only [Value.equalWithin, Value.equalItems, hself, hnan, Bool.false_or, Bool.and_true]
  clear hsame
  let nans (run number : Nat) : Value := .array (.made run number) [.float nan]
  let method (name : String) (f : Arguments → Value) : Method :=
    { name, deterministic := true, run := fun args => .ok (f args) }
  let stored (f : Fragment) : Registry :=
    [("Q",
      { name := "Q", body := .compiled f, traits := ⟨true, true, true⟩, capturesScope := false })]
  let body : Fragment := .method (method "arr" Builtin.sequence)
    [(none, .method (method "nan" fun _ => .float nan) [])]
  let call : Fragment := .template (.const (.string "Q")) []
  let compared : Fragment :=
    .method (method "eq" fun args => .bool (same (args.get 0) (args.get 1)))
      [(none, call), (none, call)]
  refine ⟨hsync, hquiet, { templates := stored (.const (nans 1 0)), kept := 1 },
    { templates := stored body }, ⟨.sync, .compiled (.const (.bool (same (nans 1 0) (nans 1 0))))⟩,
    ⟨.sync, .compiled compared⟩, { templates := stored (.const (nans 1 0)), kept := 2 },
    { templates := stored body }, rfl, rfl, rfl, rfl, ?folded, ?repeated⟩
  case folded =>
    show (some { result := .ok (Value.bool (same (nans 1 0) (nans 1 0))).output } :
      Option (Outcome String)) = _
    rw [hmarks]
    rfl
  case repeated =>
    let setup : FragmentRun :=
      { mode := .sync, unroll := true, run := engine.unfolding.runTemplate 1 }
    have hcall (made : Nat) :
        call.eval (setup.within compared) (Scope.root .null) { templates := stored body, made } =
          some (.ok (nans 0 made), { templates := stored body, made := made + 1 }) := rfl
    have heval : compared.eval setup (Scope.root .null) { templates := stored body } =
        some (.ok (.bool false), { templates := stored body, made := 2 }) := by
      show (evalBuiltArguments [(none, call.eval (setup.within compared)),
        (none, call.eval (setup.within compared))] {} (Scope.root .null) >>= _) _ = _
      simp only [evalBuiltArguments, EvalM.bind_apply, hcall]
      show (some (.ok (.bool (same (nans 0 0) (nans 0 1))), _) :
        Option (Except Error Value × Effects)) = _
      rw [hmarks]
      rfl
    unfold Template.shown Template.render
    rw [EvalM.bind_apply]
    show Option.map _ ((compared.eval setup (Scope.root .null) >>= _) _) = _
    rw [EvalM.bind_apply, heval]
    rfl

end Engine

end Stencil
