import Stencil.Proofs.Code

/-!
# Steady code

What the analysis of expressions calls deterministic may still read its context, as long as that is
known, but nothing else of its scope: no frame and no place. Two evaluations of such code are
compared here at scopes that have nothing in common but their contexts, and not even those where
the context is unknown. The two may run different code in different registries, as long as it is
steady together layer by layer.

A section is the exception. Where its value is `true`, its body is evaluated in the scope around it,
although it is analysed as if its context were known. There it has to match for another reason.

## Main results

* `Code.paired_steady`: code that is steady together layer by layer matches, whatever the scopes.
* `Layer.Determined.steady`: a deterministic layer is steady together with a layer that is related
  to it.
-/

namespace Stencil

open Simulation (Matches)

/-- The value of code that is a constant. -/
def Code.constant? : Code → Option Value
  | walked (.literal v) | built (.const v) => some v
  | _ => none

/-- Constant code is evaluated to its value. -/
theorem Code.eval_of_constant (host : Host) {c : Code} {v : Value} (h : c.constant? = some v) :
    c.eval host = fun _ => pure v := by
  unfold constant? at h
  split at h
  · cases h
    rfl
  · cases h
    rfl
  · cases h

namespace Layer

variable {α β : Type}

/-- The parts of a layer that are evaluated in the scope around it. -/
def inPlace : Layer α → List α
  | value _ | path _ | lookup _ | position _ | refused _ => []
  | form _ ps => ps
  | loop _ _ selector _ branch => [selector, branch]
  | context _ named v _ => named.map Prod.snd ++ v.toList
  | template name named => name :: named.map Prod.snd
  | define name _ => [name]
  | method _ args => args.map Prod.snd

/-- The layer of something deterministic, with its context known or not: its parts are deterministic
in turn, and those that get a context of their own are so with a known context. Methods are among
some, and templates are called by literal names that may be called. -/
inductive Determined (literal : α → Value → Prop) (method : Method → Prop)
    (callable : Bool → String → Prop) (det : Bool → α → Prop) (known : Bool) : Layer α → Prop
  | value (v : Value) : Determined literal method callable det known (.value v)
  | path (p : Path) : known = true → Determined literal method callable det known (.path p)
  | form (f : Form) {ps : List α} :
      (∀ p ∈ ps, det known p) → Determined literal method callable det known (.form f ps)
  | loop (kind : LoopKind) (params : List String) {selector body branch : α} :
      det known selector → det true body → det known branch →
      Determined literal method callable det known (.loop kind params selector body branch)
  | context (params : List String) {named : List (String × α)} {v : Option α} {body : α} :
      (∀ p ∈ named.map Prod.snd, det known p) → (∀ p, v = some p → det known p) → det true body →
      Determined literal method callable det known (.context params named v body)
  | template {name : α} {named : List (String × α)} {v : Value} :
      literal name v → callable named.isEmpty v.keyText → (∀ p ∈ named.map Prod.snd, det known p) →
      Determined literal method callable det known (.template name named)
  | method {m : Method} {args : List (Option String × α)} :
      method m → (∀ p ∈ args.map Prod.snd, det known p) →
      Determined literal method callable det known (.method m args)
  | refused (err : Error) : Determined literal method callable det known (.refused err)

/-- The parts of a deterministic layer are literal names, or deterministic in turn. -/
theorem Determined.exists_det {literal : α → Value → Prop} {method : Method → Prop}
    {callable : Bool → String → Prop} {det : Bool → α → Prop} {known : Bool} {l : Layer α}
    (h : l.Determined literal method callable det known) {p : α} (hp : p ∈ l.parts) :
    (∃ v, literal p v) ∨ ∃ known, det known p := by
  cases h with
  | value | path | refused => exact absurd hp List.not_mem_nil
  | form f hps => exact .inr ⟨_, hps p hp⟩
  | loop kind params hselector hbody hbranch =>
    simp only [parts, List.mem_cons, List.not_mem_nil, or_false] at hp
    rcases hp with rfl | rfl | rfl
    · exact .inr ⟨_, hselector⟩
    · exact .inr ⟨_, hbody⟩
    · exact .inr ⟨_, hbranch⟩
  | context params hnamed hv hbody =>
    simp only [parts, List.mem_append, List.mem_singleton, Option.mem_toList] at hp
    rcases hp with (hp | hp) | rfl
    · exact .inr ⟨_, hnamed p hp⟩
    · exact .inr ⟨_, hv p hp⟩
    · exact .inr ⟨_, hbody⟩
  | template hname _ hnamed =>
    rcases List.mem_cons.mp hp with rfl | hp
    · exact .inl ⟨_, hname⟩
    · exact .inr ⟨_, hnamed p hp⟩
  | method _ hargs => exact .inr ⟨_, hargs p hp⟩

/-- What is related to a deterministic layer is deterministic too, when its parts are. -/
theorem Determined.transfer {literal : α → Value → Prop} {literal' : β → Value → Prop}
    {method method' : Method → Prop} {callable : Bool → String → Prop} {det : Bool → α → Prop}
    {det' : Bool → β → Prop} {known : Bool} {pairing : Pairing} {N : α → β → Prop}
    {l : Layer α} {l' : Layer β}
    (h : l.Determined literal method callable det known) (hrel : l.Rel pairing N l')
    (hmethods : ∀ m m', pairing.methods m m' → method m → method' m')
    (hliteral : ∀ a b v, literal a v → N a b → literal' b v)
    (hparts : ∀ known a b, det known a → N a b → det' known b) :
    l'.Determined literal' method' callable det' known := by
  have hnamed : ∀ {κ : Type} {as : List (κ × α)} {bs : List (κ × β)},
      List.Forall₂ (NamedRel N) as bs → (∀ a ∈ as.map Prod.snd, det known a) →
      ∀ b ∈ bs.map Prod.snd, det' known b := fun hN hdet b hb => by
    obtain ⟨a, ha, hab⟩ := exists_of_forall₂_named hN hb
    exact hparts known a b (hdet a ha) hab
  cases hrel with
  | value v => exact .value v
  | path p =>
    cases h with
    | path _ hknown => exact .path p hknown
  | lookup | position => cases h
  | define => cases h
  | refused err => exact .refused err
  | form f hps =>
    cases h with
    | form _ hdet =>
      refine .form f fun b hb => ?_
      obtain ⟨a, ha, hab⟩ := exists_of_forall₂ hps hb
      exact hparts known a b (hdet a ha) hab
  | loop kind params hselector hbody hbranch =>
    cases h with
    | loop _ _ hs hb hbr =>
      exact .loop kind params (hparts _ _ _ hs hselector) (hparts _ _ _ hb hbody)
        (hparts _ _ _ hbr hbranch)
  | context params hnamed' hv hbody =>
    cases h with
    | context _ hn hvalue hb =>
      refine .context params (hnamed hnamed' hn) ?_ (hparts _ _ _ hb hbody)
      rintro p rfl
      cases hv with
      | some hv => exact hparts _ _ _ (hvalue _ rfl) hv
  | @template name name' named named' _ hname hnamed' =>
    cases h with
    | template hlit hcallable hn =>
      refine .template (hliteral _ _ _ hlit hname) ?_ (hnamed hnamed' hn)
      have hempty : named'.isEmpty = named.isEmpty := by
        cases hnamed' <;> rfl
      rwa [hempty]
  | method hm hargs =>
    cases h with
    | method hdet hn => exact .method (hmethods _ _ hm hdet) (hnamed hargs hn)

end Layer

/-! ### Steady layers -/

/-- A section whose value is `true` evaluates its body in the scope around it, where the selector
has ended: there the body matches, as soon as it matches wherever the contexts look alike. -/
def Simulation.Stays (sim : Simulation) (host host' : Host) (selector body body' : Code) : Prop :=
  (∀ s t, s.context.Alike sim.marks t.context →
      sim.Paired s t (body.eval host) (body'.eval host')) →
    ∀ s t E E' F', (∃ F, sim.rel E F) → selector.eval host s E = some (.ok (.bool true), E') →
      sim.rel E' F' →
      sim.Joint (Value.Alike sim.marks) (body.eval host s E') (body'.eval host' t F')

/-- What steady layers have in common matches in two evaluations: the methods, and the templates
that may be called, with a known context or not and without values or not. -/
structure Simulation.SteadyCommon (sim : Simulation) (host host' : Host)
    (callable : Bool → Bool → String → Prop) (methods : Method → Method → Prop) : Prop where
  calls : ∀ known bare key, callable known bare key → ∀ E F, sim.rel E F →
    Found (fun x y => ∀ s t v w, (known = true ∨ bare = false → v.Alike sim.marks w) →
        sim.Paired (x.scope s v) (y.scope t w) (host.call x.body) (host'.call y.body))
      (E.templates.get key) (F.templates.get key)
  methods : ∀ m m', methods m m' → ∀ args args', args.Alike sim.marks args' →
    sim.Matches (Value.Alike sim.marks) (m.call args) (m'.call args')

namespace Layer

/-- Two layers are steady together, with their context known or not: they have one form, and their
parts are steady together, those that get a context of their own with a known context. -/
inductive Steady (stays : Code → Code → Code → Prop) (callable : Bool → Bool → String → Prop)
    (methods : Method → Method → Prop) (M : Bool → Code → Code → Prop) (known : Bool) :
    Layer Code → Layer Code → Prop
  | value (v : Value) : Steady stays callable methods M known (.value v) (.value v)
  | path (p : Path) : known = true → Steady stays callable methods M known (.path p) (.path p)
  | form (f : Form) {ps qs : List Code} :
      List.Forall₂ (M known) ps qs →
      Steady stays callable methods M known (.form f ps) (.form f qs)
  | loop (kind : LoopKind) (params : List String)
      {selector body branch selector' body' branch' : Code} :
      M known selector selector' → M true body body' → M known branch branch' →
      (kind = .section → known = false → stays selector body body') →
      Steady stays callable methods M known (.loop kind params selector body branch)
        (.loop kind params selector' body' branch')
  | context (params : List String) {named named' : List (String × Code)} {v v' : Option Code}
      {body body' : Code} :
      List.Forall₂ (NamedRel (M known)) named named' → Option.Rel (M known) v v' →
      M true body body' →
      Steady stays callable methods M known (.context params named v body)
        (.context params named' v' body')
  | template {name name' : Code} {named named' : List (String × Code)} {v : Value} :
      name.constant? = some v → name'.constant? = some v →
      callable known named.isEmpty v.keyText → List.Forall₂ (NamedRel (M known)) named named' →
      Steady stays callable methods M known (.template name named) (.template name' named')
  | method {m m' : Method} {args args' : List (Option String × Code)} :
      methods m m' → List.Forall₂ (NamedRel (M known)) args args' →
      Steady stays callable methods M known (.method m args) (.method m' args')
  | refused (err : Error) : Steady stays callable methods M known (.refused err) (.refused err)

/-- A deterministic layer is steady together with a layer that is related to it, when what is
deterministic and related is steady together. -/
theorem Determined.steady {stays : Code → Code → Code → Prop}
    {callable : Bool → Bool → String → Prop} {methods : Method → Method → Prop}
    {M : Bool → Code → Code → Prop} {method : Method → Prop} {callable₀ : Bool → String → Prop}
    {det : Bool → Code → Prop} {N : Code → Code → Prop} {pairing : Pairing} {known : Bool}
    {l l' : Layer Code}
    (h : l.Determined (fun c v => c.constant? = some v) method callable₀ det known)
    (hrel : l.Rel pairing N l')
    (hcallable : ∀ name named v, l = .template name named → name.constant? = some v →
      callable₀ named.isEmpty v.keyText → callable known named.isEmpty v.keyText)
    (hmethods : ∀ m m', method m → pairing.methods m m' → methods m m')
    (hconstant : ∀ c d v, c.constant? = some v → N c d → d.constant? = some v)
    (hinPlace : ∀ c ∈ l.inPlace, ∀ d, det known c → N c d → M known c d)
    (hbody : ∀ c d, det true c → N c d → M true c d)
    (hsection : ∀ params selector body branch, l = .loop .section params selector body branch →
      known = false → det known selector → ∀ body', N body body' → stays selector body body') :
    l.Steady stays callable methods M known l' := by
  have hlist : ∀ {as bs : List Code}, List.Forall₂ N as bs → (∀ a ∈ as, a ∈ l.inPlace) →
      (∀ a ∈ as, det known a) → List.Forall₂ (M known) as bs := fun hN hin hdet => by
    simpa using forall₂_map_mem (f := id) (g := id) hN fun a ha b hab =>
      hinPlace a (hin a ha) b (hdet a ha) hab
  have hnamed : ∀ {κ : Type} {as bs : List (κ × Code)}, List.Forall₂ (NamedRel N) as bs →
      (∀ a ∈ as.map Prod.snd, a ∈ l.inPlace) → (∀ a ∈ as.map Prod.snd, det known a) →
      List.Forall₂ (NamedRel (M known)) as bs := fun hN hin hdet => by
    simpa using forall₂_mapValues_mem (f := id) (g := id) hN fun a ha b hab =>
      hinPlace a (hin a ha) b (hdet a ha) hab
  cases h with
  | value v =>
    cases hrel
    exact .value v
  | path p hknown =>
    cases hrel
    exact .path p hknown
  | form f hdet =>
    cases hrel with
    | form _ hps => exact .form f (hlist hps (fun _ h => h) hdet)
  | loop kind params hs hb hbr =>
    cases hrel with
    | loop _ _ hselector hbody' hbranch =>
      refine .loop kind params (hinPlace _ (by simp [inPlace]) _ hs hselector)
        (hbody _ _ hb hbody') (hinPlace _ (by simp [inPlace]) _ hbr hbranch) ?_
      rintro rfl hknown
      exact hsection _ _ _ _ rfl hknown hs _ hbody'
  | context params hn hv hb =>
    cases hrel with
    | context _ hnamed' hv' hbody' =>
      refine .context params (hnamed hnamed' (fun _ h => List.mem_append_left _ h) hn) ?_
        (hbody _ _ hb hbody')
      cases hv' with
      | none => exact .none
      | some hv' => exact .some (hinPlace _ (by simp [inPlace]) _ (hv _ rfl) hv')
  | template hliteral hkey hn =>
    cases hrel with
    | template _ hname hnamed' =>
      exact .template hliteral (hconstant _ _ _ hliteral hname)
        (hcallable _ _ _ rfl hliteral hkey)
        (hnamed hnamed' (fun _ h => List.mem_cons_of_mem _ h) hn)
  | method hm hargs =>
    cases hrel with
    | method hm' hargs' => exact .method (hmethods _ _ hm hm') (hnamed hargs' (fun _ h => h) hargs)
  | refused err =>
    cases hrel
    exact .refused err

end Layer

/-- The context of a round is its item. -/
theorem LoopStyle.round_context (style : LoopStyle) (s : Scope) (place : Position) (item : Value) :
    (style.round s place item).context = item := by
  unfold round
  split
  · rfl
  · rfl

/-- The context of a context block is its value. -/
theorem contextScope_context (params : List String) (framed : Bool) (s : Scope) (v : Value) :
    (contextScope params framed s v).context = v := by
  unfold contextScope
  split
  · rfl
  · rfl

namespace Code

variable {sim : Simulation} {host host' : Host} {callable : Bool → Bool → String → Prop}
  {methods : Method → Method → Prop} {M : Bool → Code → Code → Prop} {known : Bool}

/-- Layers that are steady together match when their parts do. -/
theorem run_paired_steady (common : sim.SteadyCommon host host' callable methods)
    {l l' : Layer Code} (h : l.Steady (sim.Stays host host') callable methods M known l')
    (hparts : ∀ c ∈ l.parts, ∀ known d, M known c d → ∀ s t,
      (known = true → s.context.Alike sim.marks t.context) →
      sim.Paired s t (c.eval host) (d.eval host'))
    {s t : Scope} (hst : known = true → s.context.Alike sim.marks t.context) :
    sim.Paired s t (l.run host.call (eval host)) (l'.run host'.call (eval host')) := by
  have hlist : ∀ {as bs : List Code}, List.Forall₂ (M known) as bs → (∀ a ∈ as, a ∈ l.parts) →
      List.Forall₂ (sim.Paired s t) (as.map (eval host)) (bs.map (eval host')) := fun hM hin =>
    Layer.forall₂_map_mem hM fun a ha b hab => hparts a (hin a ha) known b hab s t hst
  have hnamed : ∀ {κ : Type} {as bs : List (κ × Code)},
      List.Forall₂ (Layer.NamedRel (M known)) as bs → (∀ a ∈ as.map Prod.snd, a ∈ l.parts) →
      List.Forall₂ (sim.NamedPaired s t) (Keyed.mapValues (eval host) as)
        (Keyed.mapValues (eval host') bs) := fun hM hin =>
    Layer.forall₂_mapValues_mem hM fun a ha b hab => hparts a (hin a ha) known b hab s t hst
  cases h with
  | value v => exact .pure rfl
  | path p hknown =>
    refine .pure ?_
    unfold Value.Alike Path.resolve
    rw [← Value.read_seen, ← Value.read_seen, hst hknown]
  | form f hps => exact f.matches_eval (hlist hps fun _ h => h)
  | loop kind params hselector hbody hbranch hstays =>
    have hpaired := fun s t h => hparts _ (by simp [Layer.parts]) true _ hbody s t fun _ => h
    refine LoopStyle.matches_eval rfl
      (hparts _ (by simp [Layer.parts]) known _ hselector s t hst) ?_ ?_
      (hparts _ (by simp [Layer.parts]) known _ hbranch s t hst)
    · rintro ⟨p, v⟩ ⟨q, w⟩ ⟨-, hvalue⟩
      refine hpaired _ _ ?_
      rwa [LoopStyle.round_context, LoopStyle.round_context]
    · intro hsection v w E E' F' heval hv hrel hstart
      by_cases htrue : v = .bool true
      · subst htrue
        obtain rfl := Value.alike_bool.mp hv
        show sim.Joint _ (eval host _ s E') (eval host' _ t F')
        cases hknown : known with
        | true => exact hpaired s t (hst hknown) hrel
        | false => exact hstays hsection hknown hpaired s t E E' F' hstart heval hrel
      · exact matches_wholeValue hv (fun h => absurd h htrue) (hpaired _ _ hv) hrel
  | context params hnamed' hv hbody =>
    refine matches_evalContext (hnamed hnamed' fun _ h => ?_) ?_ ?_
    · exact List.mem_append_left _ (List.mem_append_left _ h)
    · cases hv with
      | none => exact .none
      | some hv => exact .some (hparts _ (by simp [Layer.parts]) known _ hv s t hst)
    · intro replaces v w hvw
      refine hparts _ (by simp [Layer.parts]) true _ hbody _ _ fun _ => ?_
      rwa [contextScope_context, contextScope_context]
  | @template name name' named named' v hname hname' hcallable hnamed' =>
    have hnil : named = [] → (Keyed.mapValues (eval host) named).isEmpty = true := by
      rintro rfl
      rfl
    refine matches_evalTemplate (· = v.keyText)
      (C := fun v w => known = true ∨ named.isEmpty = false → v.Alike sim.marks w) ?_
      (hnamed hnamed' fun _ h => List.mem_cons_of_mem _ h) ?_ (fun _ _ _ h _ => h) ?_
    · rw [eval_of_constant host hname, eval_of_constant host' hname']
      exact .pure ⟨rfl, rfl⟩
    · intro hempty hor
      refine hst (hor.resolve_right ?_)
      rw [← Keyed.isEmpty_mapValues (eval host), hempty]
      exact Bool.false_ne_true.symm
    · rintro E F hrel _ rfl
      exact (common.calls known _ _ hcallable E F hrel).imp fun x y hxy u w h => hxy s t u w h
  | method hm hargs =>
    refine (matches_evalBuiltArguments (hnamed hargs fun _ h => h) rfl).bind ?_
    exact fun args args' halike => common.methods _ _ hm args args' halike
  | refused err => exact .throw err

/-- Code that is steady together layer by layer matches, at any scopes where the context is unknown
and at scopes whose contexts look alike where it is known. Where the relation does not pass to the
parts, the two have to match in another way. -/
theorem paired_steady (common : sim.SteadyCommon host host' callable methods)
    (step : ∀ known c d, M known c d →
      (c.layer host.operations host.mode).Steady (sim.Stays host host') callable methods M known
          (d.layer host'.operations host'.mode) ∨
        ∀ s t, (known = true → s.context.Alike sim.marks t.context) →
          sim.Paired s t (c.eval host) (d.eval host')) :
    ∀ c known d, M known c d → ∀ s t, (known = true → s.context.Alike sim.marks t.context) →
      sim.Paired s t (c.eval host) (d.eval host') := by
  intro c
  induction c using induction host.operations host.mode with
  | step c ih =>
    intro known d hcd s t hst
    rcases step known c d hcd with hlayer | hpaired
    · rw [eval_eq_run, eval_eq_run]
      exact run_paired_steady common hlayer ih hst
    · exact hpaired s t hst

end Code

end Stencil
