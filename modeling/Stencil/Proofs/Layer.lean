import Stencil.Proofs.Simulation

/-!
# Layers

Expressions and fragments are both evaluated layer by layer: a layer is a value or a read, or an
operation with the parts that it evaluates. What an evaluation does at one layer is written here
once, over the evaluations of its parts. Two layers of one form, whose parts are related, match each
other as soon as related parts do.

## Main results

* `Layer.Rel.paired`: layers with related parts match when related parts do.
* `Layer.Rel.transfer`: related layers stay related when related parts are changed to related ones.
-/

namespace Stencil

/-- How the entry of a defined template is made, from the registered templates and its name. -/
abbrev EntryMaker := Registry → String → TemplateEntry

/-- The outermost layer of an expression or a fragment: what it is, and its parts. -/
inductive Layer (α : Type) where
  | value (value : Value)
  | path (path : Path)
  | lookup (path : String)
  | position (read : PositionRead)
  | form (form : Form) (parts : List α)
  | loop (kind : LoopKind) (params : List String) (selector body branch : α)
  | context (params : List String) (named : List (String × α)) (value : Option α) (body : α)
  | template (name : α) (named : List (String × α))
  | define (name : α) (entry : EntryMaker)
  | method (method : Method) (args : List (Option String × α))
  /-- A call that fails before anything is evaluated. -/
  | refused (error : Error)

/-- What two layers have in common beside their parts. -/
structure Pairing where
  /-- Templates may be called. -/
  templates : Prop
  methods : Method → Method → Prop
  entries : EntryMaker → EntryMaker → Prop

namespace Layer

variable {α β : Type}

/-- Changes the parts of a layer. -/
def map (f : α → β) : Layer α → Layer β
  | value v => value v
  | path p => path p
  | lookup p => lookup p
  | position r => position r
  | form fm parts => form fm (parts.map f)
  | loop kind params selector body branch => loop kind params (f selector) (f body) (f branch)
  | context params named v body =>
    context params (Keyed.mapValues f named) (v.map f) (f body)
  | template name named => template (f name) (Keyed.mapValues f named)
  | define name entry => define (f name) entry
  | method m args => method m (Keyed.mapValues f args)
  | refused err => refused err

/-- The parts of a layer. -/
def parts : Layer α → List α
  | value _ | path _ | lookup _ | position _ | refused _ => []
  | form _ ps => ps
  | loop _ _ selector body branch => [selector, body, branch]
  | context _ named v body => named.map Prod.snd ++ v.toList ++ [body]
  | template name named => name :: named.map Prod.snd
  | define name _ => [name]
  | method _ args => args.map Prod.snd

/-- Evaluates a layer, given how templates are called and how its parts are evaluated. Every block
leaves a frame behind. -/
def run (call : TemplateBody → Lazy) (eval : α → Lazy) : Layer α → Lazy
  | value v => fun _ => pure v
  | path p => fun s => pure (p.resolve s.context)
  | lookup p => fun s => pure (s.lookup p)
  | position r => fun s => pure (r.read s.position)
  | form f ps => f.eval (ps.map eval)
  | loop kind params selector body branch =>
    LoopStyle.eval { kind, params, framed := true, atOnce := false } (eval selector) (eval body)
      (eval branch)
  | context params named v body =>
    evalContext params true (Keyed.mapValues eval named) (v.map eval) (eval body)
  | template name named => evalTemplate call (eval name) (Keyed.mapValues eval named)
  | define name entry => evalDefinition (eval name) entry
  | method m args => fun s => do
    m.call (← evalBuiltArguments (Keyed.mapValues eval args) {} s)
  | refused err => fun _ => throw err

/-- To evaluate a changed layer is to change the parts before they are evaluated. -/
theorem run_map (call : TemplateBody → Lazy) (f : α → β) (eval : β → Lazy) (l : Layer α) :
    (l.map f).run call eval = l.run call fun a => eval (f a) := by
  cases l <;> simp [map, run, Function.comp_def]

/-- The parts of a changed layer are the changed parts. -/
theorem parts_map (f : α → β) (l : Layer α) : (l.map f).parts = l.parts.map f := by
  cases l with
  | context params named v body => cases v <;> simp [map, parts]
  | _ => simp [map, parts]

/-- A layer whose parts stay as they are stays as it is. -/
theorem map_id (l : Layer α) : l.map id = l := by
  cases l <;> simp [map]

section OfMap

variable {f : α → β} {l : Layer α}

/-- Only a loop is changed into a loop. -/
theorem of_map_loop {kind : LoopKind} {params : List String} {selector body branch : β}
    (h : l.map f = .loop kind params selector body branch) :
    ∃ selector body branch, l = .loop kind params selector body branch := by
  cases l <;> cases h
  exact ⟨_, _, _, rfl⟩

/-- Only a call is changed into a call. -/
theorem of_map_template {name : β} {named : List (String × β)}
    (h : l.map f = .template name named) : ∃ name named, l = .template name named := by
  cases l <;> cases h
  exact ⟨_, _, rfl⟩

/-- Only a definition is changed into a definition, and its entry stays. -/
theorem of_map_define {name : β} {entry : EntryMaker} (h : l.map f = .define name entry) :
    ∃ name, l = .define name entry := by
  cases l <;> cases h
  exact ⟨_, rfl⟩

/-- Only a method is changed into a method, and it stays the method. -/
theorem of_map_method {m : Method} {args : List (Option String × β)}
    (h : l.map f = .method m args) : ∃ args, l = .method m args := by
  cases l <;> cases h
  exact ⟨_, rfl⟩

/-- Only what is refused is changed into what is refused. -/
theorem of_map_refused {err : Error} (h : l.map f = .refused err) : l = .refused err := by
  cases l <;> cases h
  rfl

end OfMap

/-! ### Layers with related parts -/

/-- Two parts under one name are related. -/
def NamedRel {κ : Type} (R : α → β → Prop) (a : κ × α) (b : κ × β) : Prop :=
  a.1 = b.1 ∧ R a.2 b.2

/-- Related lists stay related when related members are changed to related ones. -/
theorem forall₂_map_mem {γ δ : Type} {R : α → β → Prop} {S : γ → δ → Prop} {f : α → γ}
    {g : β → δ} {as : List α} {bs : List β} (h : List.Forall₂ R as bs)
    (hRS : ∀ a ∈ as, ∀ b, R a b → S (f a) (g b)) :
    List.Forall₂ S (as.map f) (bs.map g) := by
  induction h with
  | nil => exact .nil
  | cons hab _ ih =>
    exact .cons (hRS _ (by simp) _ hab) (ih fun a ha => hRS a (List.mem_cons_of_mem _ ha))

/-- Related named lists stay related when related members are changed to related ones. -/
theorem forall₂_mapValues_mem {γ δ κ : Type} {R : α → β → Prop} {S : γ → δ → Prop} {f : α → γ}
    {g : β → δ} {as : List (κ × α)} {bs : List (κ × β)} (h : List.Forall₂ (NamedRel R) as bs)
    (hRS : ∀ a ∈ as.map Prod.snd, ∀ b, R a b → S (f a) (g b)) :
    List.Forall₂ (NamedRel S) (Keyed.mapValues f as) (Keyed.mapValues g bs) :=
  forall₂_map_mem h fun a ha b hab => ⟨hab.1, hRS a.2 (List.mem_map_of_mem ha) b.2 hab.2⟩

/-- Each member of the second list is related to one of the first. -/
theorem exists_of_forall₂ {R : α → β → Prop} {as : List α} {bs : List β}
    (h : List.Forall₂ R as bs) {b : β} (hb : b ∈ bs) : ∃ a ∈ as, R a b := by
  induction h with
  | nil => exact absurd hb List.not_mem_nil
  | cons hab _ ih =>
    rcases List.mem_cons.mp hb with rfl | hb
    · exact ⟨_, List.mem_cons_self, hab⟩
    · obtain ⟨a, ha, hab⟩ := ih hb
      exact ⟨a, List.mem_cons_of_mem _ ha, hab⟩

/-- Each member of the second named list is related to one of the first. -/
theorem exists_of_forall₂_named {κ : Type} {R : α → β → Prop} {as : List (κ × α)}
    {bs : List (κ × β)} (h : List.Forall₂ (NamedRel R) as bs) {b : β}
    (hb : b ∈ bs.map Prod.snd) : ∃ a ∈ as.map Prod.snd, R a b := by
  obtain ⟨entry, hentry, rfl⟩ := List.mem_map.mp hb
  obtain ⟨a, ha, hab⟩ := exists_of_forall₂ h hentry
  exact ⟨a.2, List.mem_map_of_mem ha, hab.2⟩

/-- What related named lists hold under one name is related. -/
theorem forall₂_find? {R : α → β → Prop} {as : Keyed α} {bs : Keyed β}
    (h : List.Forall₂ (NamedRel R) as bs) (key : String) :
    Option.Rel R (Keyed.find? key as) (Keyed.find? key bs) := by
  induction h with
  | nil => exact .none
  | @cons a b _ _ hab _ ih =>
    obtain ⟨k, x⟩ := a
    obtain ⟨k', y⟩ := b
    obtain ⟨rfl, hxy⟩ := hab
    unfold Keyed.find?
    split
    · exact .some hxy
    · exact ih

/-- Two layers have one form, and their methods, the entries that they define and their parts are
related. -/
inductive Rel (pairing : Pairing) (R : α → β → Prop) : Layer α → Layer β → Prop
  | value (v : Value) : Rel pairing R (.value v) (.value v)
  | path (p : Path) : Rel pairing R (.path p) (.path p)
  | lookup (p : String) : Rel pairing R (.lookup p) (.lookup p)
  | position (r : PositionRead) : Rel pairing R (.position r) (.position r)
  | form (f : Form) {ps : List α} {qs : List β} :
      List.Forall₂ R ps qs → Rel pairing R (.form f ps) (.form f qs)
  | loop (kind : LoopKind) (params : List String) {selector body branch : α}
      {selector' body' branch' : β} :
      R selector selector' → R body body' → R branch branch' →
      Rel pairing R (.loop kind params selector body branch)
        (.loop kind params selector' body' branch')
  | context (params : List String) {named : List (String × α)} {named' : List (String × β)}
      {v : Option α} {v' : Option β} {body : α} {body' : β} :
      List.Forall₂ (NamedRel R) named named' → Option.Rel R v v' → R body body' →
      Rel pairing R (.context params named v body) (.context params named' v' body')
  | template {name : α} {name' : β} {named : List (String × α)} {named' : List (String × β)} :
      pairing.templates → R name name' → List.Forall₂ (NamedRel R) named named' →
      Rel pairing R (.template name named) (.template name' named')
  | define {name : α} {name' : β} {entry entry' : EntryMaker} :
      R name name' → pairing.entries entry entry' →
      Rel pairing R (.define name entry) (.define name' entry')
  | method {m m' : Method} {args : List (Option String × α)} {args' : List (Option String × β)} :
      pairing.methods m m' → List.Forall₂ (NamedRel R) args args' →
      Rel pairing R (.method m args) (.method m' args')
  | refused (err : Error) : Rel pairing R (.refused err) (.refused err)

namespace Rel

variable {pairing : Pairing} {R : α → β → Prop} {l : Layer α} {l' : Layer β}

/-- Each part of the second layer is related to a part of the first one. -/
theorem exists_part (h : l.Rel pairing R l') {b : β} (hb : b ∈ l'.parts) :
    ∃ a ∈ l.parts, R a b := by
  cases h with
  | value | path | lookup | position | refused => exact absurd hb List.not_mem_nil
  | form f hparts => exact exists_of_forall₂ hparts hb
  | loop kind params hselector hbody hbranch =>
    simp only [parts, List.mem_cons, List.not_mem_nil, or_false] at hb ⊢
    rcases hb with rfl | rfl | rfl
    · exact ⟨_, .inl rfl, hselector⟩
    · exact ⟨_, .inr (.inl rfl), hbody⟩
    · exact ⟨_, .inr (.inr rfl), hbranch⟩
  | context params hnamed hv hbody =>
    simp only [parts, List.mem_append, List.mem_singleton, Option.mem_toList] at hb ⊢
    rcases hb with (hb | hb) | rfl
    · obtain ⟨a, ha, hab⟩ := exists_of_forall₂_named hnamed hb
      exact ⟨a, .inl (.inl ha), hab⟩
    · cases hv with
      | none => exact absurd hb (by simp)
      | some hv =>
        obtain rfl := Option.mem_some_iff.mp hb
        exact ⟨_, .inl (.inr rfl), hv⟩
    · exact ⟨_, .inr rfl, hbody⟩
  | template _ hname hnamed =>
    rcases List.mem_cons.mp hb with rfl | hb
    · exact ⟨_, List.mem_cons_self, hname⟩
    · obtain ⟨a, ha, hab⟩ := exists_of_forall₂_named hnamed hb
      exact ⟨a, List.mem_cons_of_mem _ ha, hab⟩
  | define hname _ =>
    obtain rfl := List.mem_singleton.mp hb
    exact ⟨_, List.mem_singleton.mpr rfl, hname⟩
  | method _ hargs => exact exists_of_forall₂_named hargs hb

/-- The second layer is related to the first one in the other direction. -/
theorem flip (h : l.Rel pairing R l') :
    l'.Rel
      { templates := pairing.templates
        methods := fun m m' => pairing.methods m' m
        entries := fun entry entry' => pairing.entries entry' entry }
      (fun b a => R a b) l := by
  have hlist : ∀ {as : List α} {bs : List β}, List.Forall₂ R as bs →
      List.Forall₂ (fun b a => R a b) bs as := fun h => h.flip
  have hnamed : ∀ {κ : Type} {as : List (κ × α)} {bs : List (κ × β)},
      List.Forall₂ (NamedRel R) as bs → List.Forall₂ (NamedRel fun b a => R a b) bs as := fun h =>
    h.flip.imp fun _ _ hab => ⟨hab.1.symm, hab.2⟩
  cases h with
  | value v => exact .value v
  | path p => exact .path p
  | lookup p => exact .lookup p
  | position r => exact .position r
  | form f hparts => exact .form f (hlist hparts)
  | loop kind params hselector hbody hbranch => exact .loop kind params hselector hbody hbranch
  | context params hparts hv hbody =>
    refine .context params (hnamed hparts) ?_ hbody
    cases hv with
    | none => exact .none
    | some hv => exact .some hv
  | template htemplates hname hparts => exact .template htemplates hname (hnamed hparts)
  | define hname hentry => exact .define hname hentry
  | method hm hargs => exact .method hm (hnamed hargs)
  | refused err => exact .refused err

/-- Related layers stay related when related parts are changed to related ones. -/
theorem transfer {γ δ : Type} {pairing' : Pairing} {S : γ → δ → Prop} {f : α → γ} {g : β → δ}
    (h : l.Rel pairing R l')
    (htemplates : pairing.templates → pairing'.templates)
    (hmethods : ∀ m m', pairing.methods m m' → pairing'.methods m m')
    (hentries : ∀ name entry entry', l = .define name entry → pairing.entries entry entry' →
      pairing'.entries entry entry')
    (hparts : ∀ a ∈ l.parts, ∀ b, R a b → S (f a) (g b)) :
    (l.map f).Rel pairing' S (l'.map g) := by
  cases h with
  | value v => exact .value v
  | path p => exact .path p
  | lookup p => exact .lookup p
  | position r => exact .position r
  | form fm hps => exact .form fm (forall₂_map_mem hps hparts)
  | loop kind params hselector hbody hbranch =>
    exact .loop kind params (hparts _ (by simp [parts]) _ hselector)
      (hparts _ (by simp [parts]) _ hbody) (hparts _ (by simp [parts]) _ hbranch)
  | context params hnamed hv hbody =>
    refine .context params (forall₂_mapValues_mem hnamed fun a ha => hparts a ?_) ?_
      (hparts _ (by simp [parts]) _ hbody)
    · exact List.mem_append_left _ (List.mem_append_left _ ha)
    · cases hv with
      | none => exact .none
      | some hv => exact .some (hparts _ (by simp [parts]) _ hv)
  | template htemplate hname hnamed =>
    exact .template (htemplates htemplate) (hparts _ (by simp [parts]) _ hname)
      (forall₂_mapValues_mem hnamed fun a ha => hparts a (List.mem_cons_of_mem _ ha))
  | define hname hentry =>
    exact .define (hparts _ (by simp [parts]) _ hname) (hentries _ _ _ rfl hentry)
  | method hm hargs => exact .method (hmethods _ _ hm) (forall₂_mapValues_mem hargs hparts)
  | refused err => exact .refused err

/-- Related layers are related in any way that follows. -/
theorem weaken {pairing' : Pairing} {S : α → β → Prop} (h : l.Rel pairing R l')
    (htemplates : pairing.templates → pairing'.templates)
    (hmethods : ∀ m m', pairing.methods m m' → pairing'.methods m m')
    (hentries : ∀ name entry entry', l = .define name entry → pairing.entries entry entry' →
      pairing'.entries entry entry')
    (hparts : ∀ a ∈ l.parts, ∀ b, R a b → S a b) : l.Rel pairing' S l' := by
  have h' := h.transfer (f := id) (g := id) htemplates hmethods hentries hparts
  rwa [map_id, map_id] at h'

end Rel

/-- Named lists that are related by equality are equal member by member. -/
theorem namedRel_eq {κ : Type} : (NamedRel Eq : κ × α → κ × α → Prop) = Eq := by
  funext a b
  exact propext ⟨fun h => Prod.ext h.1 h.2, fun h => h ▸ ⟨rfl, rfl⟩⟩

/-- A layer with the same parts as another one is related to what that one is related to. -/
theorem Rel.of_eq_parts {p q r : Pairing} {R : α → β → Prop} {l l' : Layer α} {l'' : Layer β}
    (h : l.Rel p Eq l') (h' : l'.Rel q R l'') (htemplates : q.templates → r.templates)
    (hmethods : ∀ m m' m'', p.methods m m' → q.methods m' m'' → r.methods m m'')
    (hentries : ∀ entry entry' entry'', p.entries entry entry' → q.entries entry' entry'' →
      r.entries entry entry'') : l.Rel r R l'' := by
  cases h with
  | value | path | lookup | position | refused =>
    cases h'
    constructor
  | form f hps =>
    rw [List.forall₂_eq_eq_eq] at hps
    subst hps
    cases h' with
    | form _ hps' => exact .form f hps'
  | loop kind params hs hb hbr =>
    subst hs hb hbr
    cases h' with
    | loop _ _ hs hb hbr => exact .loop kind params hs hb hbr
  | context params hn hv hb =>
    rw [namedRel_eq, List.forall₂_eq_eq_eq] at hn
    subst hn hb
    cases h' with
    | context _ hn' hv' hb' =>
      refine .context params hn' ?_ hb'
      cases hv with
      | none => exact hv'
      | some hv =>
        subst hv
        exact hv'
  | template _ hname hn =>
    rw [namedRel_eq, List.forall₂_eq_eq_eq] at hn
    subst hname hn
    cases h' with
    | template ht hname' hn' => exact .template (htemplates ht) hname' hn'
  | define hname hentry =>
    subst hname
    cases h' with
    | define hname' hentry' => exact .define hname' (hentries _ _ _ hentry hentry')
  | method hm hargs =>
    rw [namedRel_eq, List.forall₂_eq_eq_eq] at hargs
    subst hargs
    cases h' with
    | method hm' hargs' => exact .method (hmethods _ _ _ hm hm') hargs'

end Layer

/-! ### Evaluating layers -/

/-- Values are treated alike before and after they are given names. -/
theorem mapValues_zip {α β : Type} (f : α → β) (names : List String) (values : List α) :
    Keyed.mapValues f (names.zip values) = names.zip (values.map f) := by
  simp [Keyed.mapValues, List.zip_map_right, Prod.map]

/-- Rounds of a loop start alike in scopes that look alike. -/
theorem LoopStyle.round_alike {marks : Sight} {s t : Scope} {item item' : Position × Value}
    (style : LoopStyle) (hst : s.Alike marks t) (hitem : itemAlike marks item item') :
    (style.round s item.1 item.2).Alike marks (style.round t item'.1 item'.2) := by
  obtain ⟨hplace, hvalue⟩ := hitem
  have hindex : item.1.index.Alike marks item'.1.index := congrArg Position.index hplace
  have hposition : (some item.1).map (Position.seen marks) =
      (some item'.1).map (Position.seen marks) := congrArg some hplace
  have hbindings : [item.2, item.1.index].map (Value.seen marks) =
      [item'.2, item'.1.index].map (Value.seen marks) :=
    congrArg₂ (fun v w => [v, w]) hvalue hindex
  unfold round
  split
  · refine hst.enter hvalue ?_ hposition
    rw [blockBindings, blockBindings, mapValues_zip, mapValues_zip, hbindings]
  · exact hst.rebase hvalue hposition

/-- A body starts alike in contexts that look alike. -/
theorem contextScope_alike {marks : Sight} {s t : Scope} {v w : Value} (params : List String)
    (framed : Bool) (hst : s.Alike marks t) (hv : v.Alike marks w) :
    (contextScope params framed s v).Alike marks (contextScope params framed t w) := by
  have hbindings : [v].map (Value.seen marks) = [w].map (Value.seen marks) :=
    congrArg (fun v => [v]) hv
  unfold contextScope
  split
  · refine hst.enter hv ?_ rfl
    rw [mapValues_zip, mapValues_zip, hbindings]
  · exact hst.rebase hv rfl

/-- A template is called in scopes that look alike from scopes that do. -/
theorem TemplateEntry.scope_alike {marks : Sight} (entry : TemplateEntry) {s t : Scope}
    {v w : Value} (hst : s.Alike marks t) (hvw : v.Alike marks w) :
    (entry.scope s v).Alike marks (entry.scope t w) := by
  unfold scope
  split
  · exact hst.enter hvw rfl rfl
  · exact hst.rebase hvw rfl

/-! ### Registries that grow -/

namespace Registry

variable {R S T : Registry}

/-- What is found in the first registry is found in the second one. -/
def Within (R S : Registry) : Prop :=
  ∀ key entry, Keyed.find? key R = some entry → Keyed.find? key S = some entry

/-- A registry is within itself. -/
theorem Within.refl (R : Registry) : R.Within R :=
  fun _ _ h => h

/-- What is within a registry is within all that it is within. -/
theorem Within.trans (h : R.Within S) (h' : S.Within T) : R.Within T :=
  fun key entry hfind => h' key entry (h key entry hfind)

/-- To register under a free name keeps everything that is registered. -/
theorem within_register {entry : TemplateEntry} (h : Keyed.contains entry.name R = false) :
    R.Within (R.register entry) := by
  intro key found hfind
  have hne : key ≠ entry.name := by
    rintro rfl
    simp [Keyed.contains, hfind] at h
  unfold register
  rw [Keyed.find?_insert_ne hne, hfind]

/-- To define a template takes nothing away. -/
theorem within_define (entry : TemplateEntry) : R.Within (R.define entry) :=
  fun _ _ hfind => Keyed.find?_insertNew hfind

/-- Every entry that is found has a property. -/
def Every (P : TemplateEntry → Prop) (R : Registry) : Prop :=
  ∀ key entry, Keyed.find? key R = some entry → P entry

/-- What holds of everything that is registered still does after another entry that it holds of. -/
theorem Every.register {P : TemplateEntry → Prop} (h : R.Every P) {entry : TemplateEntry}
    (hentry : P entry) : (R.register entry).Every P := by
  intro key found hfind
  unfold Registry.register at hfind
  by_cases hkey : key = entry.name
  · rw [hkey, Keyed.find?_insert_self] at hfind
    exact Option.some.inj hfind ▸ hentry
  · rw [Keyed.find?_insert_ne hkey] at hfind
    exact h key found hfind

/-- What holds of everything that is registered still does after a definition that it holds of. -/
theorem Every.define {P : TemplateEntry → Prop} (h : R.Every P) {entry : TemplateEntry}
    (hentry : P entry) : (R.define entry).Every P := by
  unfold Registry.define Keyed.insertNew
  split
  · exact h
  · exact h.register hentry

end Registry

/-! ### Related registries -/

namespace Registry

variable {P : TemplateEntry → TemplateEntry → Prop} {R S : Registry}

/-- Two registries have the same names, and related entries under each of them. -/
def Related (P : TemplateEntry → TemplateEntry → Prop) : Registry → Registry → Prop :=
  List.Forall₂ (Layer.NamedRel P)

/-- What is found in related registries is related. -/
theorem Related.get (h : Related P R S) (key : String) : Found P (R.get key) (S.get key) := by
  have hfind := Layer.forall₂_find? h key
  unfold Registry.get
  generalize Keyed.find? key R = x at hfind ⊢
  generalize Keyed.find? key S = y at hfind ⊢
  cases hfind with
  | none => exact .error _
  | some hxy => exact .ok hxy

/-- Related registries have one list of names. -/
theorem Related.keys (h : Related P R S) : Keyed.keys R = Keyed.keys S := by
  induction h with
  | nil => rfl
  | cons hab _ ih => exact congrArg₂ List.cons hab.1 ih

/-- A name is taken in both of two related registries or in neither. -/
theorem Related.contains (h : Related P R S) (key : String) :
    Keyed.contains key R = Keyed.contains key S := by
  have hfind := Layer.forall₂_find? h key
  unfold Keyed.contains
  generalize Keyed.find? key R = x at hfind ⊢
  generalize Keyed.find? key S = y at hfind ⊢
  cases hfind <;> rfl

/-- Related entries that are defined under one name make related registries. -/
theorem Related.define (h : Related P R S) {x y : TemplateEntry} (hname : x.name = y.name)
    (hxy : P x y) : Related P (R.define x) (S.define y) := by
  have hcontains := h.contains x.name
  unfold Registry.define
  rw [Keyed.insertNew_eq, Keyed.insertNew_eq, ← hname, hcontains]
  split
  · exact h
  · exact List.rel_append h (.cons ⟨rfl, hxy⟩ .nil)

end Registry

/-- What layers have in common matches in two evaluations: the templates that are called, the
methods, and the registries after a definition. -/
structure Simulation.Common (sim : Simulation) (call call' : TemplateBody → Lazy)
    (pairing : Pairing) : Prop where
  calls : pairing.templates → ∀ E F, sim.rel E F → ∀ key,
    Found (fun x y => ∀ s t v w, s.Alike sim.marks t → v.Alike sim.marks w →
        sim.Paired (x.scope s v) (y.scope t w) (call x.body) (call' y.body))
      (E.templates.get key) (F.templates.get key)
  methods : ∀ m m', pairing.methods m m' → ∀ args args', args.Alike sim.marks args' →
    sim.Matches (Value.Alike sim.marks) (m.call args) (m'.call args')
  entries : ∀ entry entry', pairing.entries entry entry' → ∀ E F, sim.rel E F → ∀ key,
    sim.rel { E with templates := E.templates.define (entry E.templates key) }
      { F with templates := F.templates.define (entry' F.templates key) }

namespace Layer

variable {α β : Type} {sim : Simulation} {call call' : TemplateBody → Lazy}
  {pairing : Pairing} {R : α → β → Prop} {eval : α → Lazy} {eval' : β → Lazy} {s t : Scope}

/-- Related named parts match, name by name. -/
theorem forall₂_mapValues {κ : Type} {named : List (κ × α)} {named' : List (κ × β)}
    (h : List.Forall₂ (NamedRel R) named named')
    (hR : ∀ a b, R a b → sim.Paired s t (eval a) (eval' b)) :
    List.Forall₂ (sim.NamedPaired s t) (Keyed.mapValues eval named)
      (Keyed.mapValues eval' named') := by
  unfold Keyed.mapValues
  rw [List.forall₂_map_left_iff, List.forall₂_map_right_iff]
  exact h.imp fun a b hab => ⟨hab.1, hR _ _ hab.2⟩

/-- Layers with related parts match at scopes that look alike, when related parts do. -/
theorem Rel.paired {l : Layer α} {l' : Layer β} (h : l.Rel pairing R l')
    (common : sim.Common call call' pairing)
    (hparts : ∀ a b, R a b → ∀ s t, s.Alike sim.marks t → sim.Paired s t (eval a) (eval' b))
    (hst : s.Alike sim.marks t) : sim.Paired s t (l.run call eval) (l'.run call' eval') := by
  cases h with
  | value v => exact .pure rfl
  | path p =>
    refine .pure ?_
    unfold Value.Alike Path.resolve
    rw [← Value.read_seen, ← Value.read_seen, hst.context]
  | lookup p =>
    refine .pure ?_
    unfold Value.Alike
    rw [← Scope.lookup_seen, ← Scope.lookup_seen, hst]
  | position r =>
    refine .pure ?_
    unfold Value.Alike
    rw [← PositionRead.read_seen, ← PositionRead.read_seen, hst.position]
  | form f hps =>
    refine f.matches_eval ?_
    rw [List.forall₂_map_left_iff, List.forall₂_map_right_iff]
    exact hps.imp fun a b hab => hparts a b hab s t hst
  | loop kind params hselector hbody hbranch =>
    refine LoopStyle.matches_eval rfl (hparts _ _ hselector s t hst) ?_ ?_
      (hparts _ _ hbranch s t hst)
    · intro item item' hitem
      exact hparts _ _ hbody _ _ (LoopStyle.round_alike _ hst hitem)
    · intro _ v w _ _ _ _ hv hrel _
      exact matches_wholeValue hv (fun _ => hparts _ _ hbody s t hst)
        (hparts _ _ hbody _ _ (hst.enter hv rfl rfl)) hrel
  | context params hnamed hv hbody =>
    refine matches_evalContext (forall₂_mapValues hnamed fun a b hab => hparts a b hab s t hst)
      ?_ ?_
    · cases hv with
      | none => exact .none
      | some hv => exact .some (hparts _ _ hv s t hst)
    · intro replaces v w hv
      exact hparts _ _ hbody _ _ (contextScope_alike params _ hst hv)
  | template htemplates hname hnamed =>
    refine matches_evalTemplate (fun _ => True)
      ((hparts _ _ hname s t hst).mono fun v w hv => ⟨hv.keyText, trivial⟩)
      (forall₂_mapValues hnamed fun a b hab => hparts a b hab s t hst)
      (fun _ => hst.context) (fun _ _ _ h => h) ?_
    intro E F hrel key _
    exact (common.calls htemplates E F hrel key).imp fun x y hxy v w hv => hxy s t v w hst hv
  | define hname hentry =>
    exact matches_evalDefinition (hparts _ _ hname s t hst)
      (fun E F hrel key => common.entries _ _ hentry E F hrel key)
  | method hm hargs =>
    refine (matches_evalBuiltArguments
      (forall₂_mapValues hargs fun a b hab => hparts a b hab s t hst) rfl).bind ?_
    exact fun args args' halike => common.methods _ _ hm args args' halike
  | refused err => exact .throw err

end Layer

end Stencil
