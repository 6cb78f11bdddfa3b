import Mathlib.Data.List.Forall2
import Stencil.Eval.Run
import Stencil.Proofs.Likeness

/-!
# Simulations between evaluations

Two evaluations are compared step by step: they start with related effects, and they have to end
with related effects and with the same failure or with related results. Some failures of the first
one may be excused, and so may be that only one of the two has an outcome. What is asked is a
simulation; the rules of this module say how the evaluation of an operation matches another one when
the evaluations of its parts do.

## Main results

* `Matches.bind`: one computation after the other.
* `Form.matches_eval`, `LoopStyle.matches_eval`, `matches_evalContext`, `matches_evalTemplate`,
  `matches_evalDefinition`, `matches_evalBuiltArguments`: the operations.
* `LoopStyle.run_eq`: to evaluate short loops at once makes no difference.
-/

namespace Stencil

/-- How the evaluations of two things are compared. -/
structure Simulation where
  /-- Whether values have to agree in their marks. -/
  marks : Sight
  /-- The failures of the first evaluation after which nothing is asked of the second one. -/
  excused : Error → Prop
  /-- The first evaluation may have no outcome. -/
  hangs : Prop
  /-- The first evaluation may have no outcome where the second one has. -/
  lags : Prop
  /-- The first evaluation may have an outcome where the second one has none. -/
  leads : Prop := False
  /-- What holds between the effects of the two. -/
  rel : Effects → Effects → Prop
  hangs_of_lags : lags → hangs
  hangs_of_leads : leads → hangs := by exact False.elim
  /-- To mark the containers of values that look alike keeps them alike, and keeps the effects
  related. -/
  settle : ∀ {E F : Effects} {v w : Value}, rel E F → v.Alike marks w →
    (v.marked E.run E.made).1.Alike marks (w.marked F.run F.made).1 ∧
      rel { E with made := (v.marked E.run E.made).2 } { F with made := (w.marked F.run F.made).2 }

/-! ### Running computations -/

namespace EvalM

variable {α β : Type}

/-- A computation is run after the other one, unless that fails or has no outcome. -/
theorem bind_apply (m : EvalM α) (k : α → EvalM β) (E : Effects) :
    (m >>= k) E =
      match m E with
      | some (.ok a, E') => k a E'
      | some (.error err, E') => some (.error err, E')
      | none => none := by
  show (m E).bind _ = _
  rcases m E with _ | ⟨_ | a, E'⟩ <;> rfl

end EvalM

namespace Simulation

variable {α β γ δ : Type} {sim : Simulation}

/-- What is asked of the outcomes of two evaluations. -/
inductive Joint (sim : Simulation) (Q : α → β → Prop) :
    Option (Except Error α × Effects) → Option (Except Error β × Effects) → Prop
  | ok {a : α} {b : β} {E F : Effects} :
      Q a b → sim.rel E F → Joint sim Q (some (.ok a, E)) (some (.ok b, F))
  | error {err : Error} {E F : Effects} :
      sim.rel E F → Joint sim Q (some (.error err, E)) (some (.error err, F))
  | excused {err : Error} {E : Effects} {n : Option (Except Error β × Effects)} :
      sim.excused err → Joint sim Q (some (.error err, E)) n
  | hang : sim.hangs → Joint sim Q none none
  | lag {n : Except Error β × Effects} : sim.lags → Joint sim Q none (some n)
  | lead {m : Except Error α × Effects} : sim.leads → Joint sim Q (some m) none

/-- Two computations match: related effects lead to outcomes as they are asked for. -/
def Matches (sim : Simulation) (Q : α → β → Prop) (m : EvalM α) (n : EvalM β) : Prop :=
  ∀ ⦃E F : Effects⦄, sim.rel E F → sim.Joint Q (m E) (n F)

/-! ### Rules -/

namespace Matches

variable {Q : α → β → Prop} {P : γ → δ → Prop}

/-- Values that are related match. -/
theorem pure {a : α} {b : β} (h : Q a b) : sim.Matches Q (pure a) (pure b) :=
  fun _ _ hrel => .ok h hrel

/-- The same failure matches. -/
theorem throw (err : Error) : sim.Matches Q (throw err) (throw err) :=
  fun _ _ hrel => .error hrel

/-- An excused failure matches everything. -/
theorem excuse {err : Error} (h : sim.excused err) (n : EvalM β) :
    sim.Matches Q (MonadExcept.throw err) n :=
  fun _ _ _ => .excused h

/-- One computation after the other, which starts where the first one has ended. -/
theorem bind_ends {m : EvalM α} {n : EvalM β} {k : α → EvalM γ} {l : β → EvalM δ}
    (hm : sim.Matches Q m n)
    (hk : ∀ a b E E' F', m E = some (.ok a, E') → Q a b → sim.rel E' F' →
      (∃ F, sim.rel E F) → sim.Joint P (k a E') (l b F')) : sim.Matches P (m >>= k) (n >>= l) := by
  intro E F hrel
  rw [EvalM.bind_apply, EvalM.bind_apply]
  have h := hm hrel
  have hends := fun a b E' F' hmE => hk a b E E' F' hmE
  revert h hends
  generalize m E = x
  generalize n F = y
  intro h hends
  cases h with
  | ok hQ hrel' => exact hends _ _ _ _ rfl hQ hrel' ⟨F, hrel⟩
  | error hrel' => exact .error hrel'
  | excused herr => exact .excused herr
  | hang hhang => exact .hang hhang
  | @lag n hlag =>
    rcases n with ⟨_ | b, F'⟩
    · exact .lag hlag
    · simp only
      cases l b F' with
      | none => exact .hang (sim.hangs_of_lags hlag)
      | some _ => exact .lag hlag
  | @lead m hlead =>
    rcases m with ⟨_ | a, E'⟩
    · exact .lead hlead
    · simp only
      cases k a E' with
      | none => exact .hang (sim.hangs_of_leads hlead)
      | some _ => exact .lead hlead

/-- One computation after the other. -/
theorem bind {m : EvalM α} {n : EvalM β} {k : α → EvalM γ} {l : β → EvalM δ}
    (hm : sim.Matches Q m n) (hk : ∀ a b, Q a b → sim.Matches P (k a) (l b)) :
    sim.Matches P (m >>= k) (n >>= l) :=
  hm.bind_ends fun a b _ _ _ _ hQ hrel _ => hk a b hQ hrel

/-- What matches goes on to match under a weaker relation. -/
theorem mono {Q' : α → β → Prop} {m : EvalM α} {n : EvalM β} (hm : sim.Matches Q m n)
    (h : ∀ a b, Q a b → Q' a b) : sim.Matches Q' m n := by
  intro E F hrel
  have hjoint := hm hrel
  revert hjoint
  generalize m E = x
  generalize n F = y
  intro hjoint
  cases hjoint with
  | ok hQ hrel' => exact .ok (h _ _ hQ) hrel'
  | error hrel' => exact .error hrel'
  | excused herr => exact .excused herr
  | hang hhang => exact .hang hhang
  | lag hlag => exact .lag hlag
  | lead hlead => exact .lead hlead

/-- Marking values that look alike. -/
theorem settle {v w : Value} (h : v.Alike sim.marks w) :
    sim.Matches (Value.Alike sim.marks) (EvalM.settle v) (EvalM.settle w) := by
  intro E F hrel
  obtain ⟨halike, hrel'⟩ := sim.settle hrel h
  exact .ok halike hrel'

end Matches

/-- The simulation of equality: outcomes are the same. -/
def exact : Simulation where
  marks := .full
  excused _ := False
  hangs := True
  lags := False
  rel := (· = ·)
  hangs_of_lags := False.elim
  settle := by
    rintro E F v w rfl hv
    obtain rfl := Value.alike_full.mp hv
    exact ⟨rfl, rfl⟩

/-- Computations that match exactly are equal. -/
theorem Matches.eq {m n : EvalM α} {Q : α → α → Prop} (hQ : ∀ a b, Q a b → a = b)
    (h : exact.Matches Q m n) : m = n := by
  funext E
  have hjoint := h (rfl : E = E)
  revert hjoint
  generalize m E = x
  generalize n E = y
  intro hjoint
  cases hjoint with
  | ok hab hrel =>
    obtain rfl := hQ _ _ hab
    obtain rfl : _ = _ := hrel
    rfl
  | error hrel =>
    obtain rfl : _ = _ := hrel
    rfl
  | excused h => exact h.elim
  | hang _ => rfl
  | lag h => exact h.elim
  | lead h => exact h.elim

/-- A computation matches itself exactly. -/
theorem Matches.exact_refl (m : EvalM α) : exact.Matches (· = ·) m m := by
  rintro E F rfl
  match m E with
  | some (.ok a, E') => exact .ok rfl rfl
  | some (.error err, E') => exact .error rfl
  | none => exact .hang trivial

end Simulation

/-! ### Likeness of what is evaluated -/

/-- Two lists of named values look alike. -/
def Keyed.Alike (marks : Sight) (named named' : Keyed Value) : Prop :=
  Keyed.mapValues (Value.seen marks) named = Keyed.mapValues (Value.seen marks) named'

/-- Two values that may be missing look alike. -/
def optionalAlike (marks : Sight) (value value' : Option Value) : Prop :=
  value.map (Value.seen marks) = value'.map (Value.seen marks)

/-- What is seen of evaluated arguments. -/
def Arguments.seen (marks : Sight) (args : Arguments) : Arguments :=
  { positional := args.positional.map (Value.seen marks)
    named := Keyed.mapValues (Value.seen marks) args.named }

/-- Two lists of evaluated arguments look alike. -/
def Arguments.Alike (marks : Sight) (args args' : Arguments) : Prop :=
  args.seen marks = args'.seen marks

/-- Arguments are seen one by one. -/
theorem Arguments.push_seen (marks : Sight) (args : Arguments) (name? : Option String)
    (value : Value) :
    (args.push name? value).seen marks = (args.seen marks).push name? (value.seen marks) := by
  cases name? with
  | none => simp [push, seen]
  | some name => simp [push, seen, Keyed.insert_mapValues]

/-- Seen in full, only the same arguments are alike. -/
theorem Arguments.alike_full {args args' : Arguments} :
    args.Alike .full args' ↔ args = args' := by
  cases args
  cases args'
  simp [Alike, seen]

/-- Two items of loops, with their places, look alike. -/
def itemAlike (marks : Sight) (item item' : Position × Value) : Prop :=
  item.1.seen marks = item'.1.seen marks ∧ item.2.Alike marks item'.2

/-- Where all marks are seen, only equal items look alike. -/
theorem itemAlike_full {item item' : Position × Value} :
    itemAlike .full item item' ↔ item = item' := by
  simp [itemAlike, Prod.ext_iff]

/-- Values that look alike have items that do. -/
theorem Value.Alike.items {marks : Sight} {v w : Value} (h : v.Alike marks w) :
    List.Forall₂ (itemAlike marks) v.items w.items := by
  have hitems : (v.seen marks).items = (w.seen marks).items := congrArg Value.items h
  rw [Value.items_seen, Value.items_seen, ← List.forall₂_eq_eq_eq, List.forall₂_map_left_iff,
    List.forall₂_map_right_iff] at hitems
  refine hitems.imp ?_
  rintro ⟨p, v⟩ ⟨q, w⟩ heq
  exact Prod.mk.inj heq

variable {sim : Simulation} {s t : Scope}

/-- Two evaluations on demand match at two scopes: their values look alike. -/
def Simulation.Paired (sim : Simulation) (s t : Scope) (m n : Lazy) : Prop :=
  sim.Matches (Value.Alike sim.marks) (m s) (n t)

/-- Two named evaluations have one name and match. -/
def Simulation.NamedPaired {κ : Type} (sim : Simulation) (s t : Scope) (m n : κ × Lazy) : Prop :=
  m.1 = n.1 ∧ sim.Paired s t m.2 n.2

/-! ### Forms -/

open Simulation (Matches)

namespace Form

variable {parts parts' : List Lazy}

/-- Concatenations of matching parts match. -/
theorem matches_evalConcat (h : List.Forall₂ (sim.Paired s t) parts parts')
    (out : String) :
    sim.Matches (· = ·) (evalConcat out parts s) (evalConcat out parts' t) := by
  induction h generalizing out with
  | nil => exact .pure rfl
  | cons hpart _ ih =>
    refine hpart.bind fun v w hv => ?_
    rw [hv.output]
    exact ih _

/-- Choices between matching parts match. -/
theorem matches_evalChoose (h : List.Forall₂ (sim.Paired s t) parts parts') :
    sim.Paired s t (evalChoose parts) (evalChoose parts') := by
  induction parts using evalChoose.induct generalizing parts' with
  | case1 =>
    cases h
    exact .pure rfl
  | case2 otherwise =>
    rcases h with _ | ⟨hother, ⟨⟩⟩
    exact hother
  | case3 condition body rest ih =>
    rcases h with _ | ⟨hcondition, _ | ⟨hbody, hrest⟩⟩
    refine Matches.bind hcondition fun v w hv => ?_
    rw [hv.truthy]
    split
    · exact hbody
    · exact ih hrest

/-- Negated choices between matching parts match. -/
theorem matches_evalUnless (h : List.Forall₂ (sim.Paired s t) parts parts') :
    sim.Paired s t (evalUnless parts) (evalUnless parts') := by
  rcases h with _ | ⟨hcondition, _ | ⟨hbody, hrest⟩⟩
  · exact .pure rfl
  · exact .pure rfl
  · refine Matches.bind hcondition fun v w hv => ?_
    rw [hv.truthy]
    split
    · rcases hrest with _ | ⟨hother, -⟩
      · exact .pure rfl
      · exact hother
    · exact hbody

/-- Defaults of matching parts match. -/
theorem matches_evalDefault (h : List.Forall₂ (sim.Paired s t) parts parts') :
    sim.Paired s t (evalDefault parts) (evalDefault parts') := by
  induction h with
  | nil => exact .pure rfl
  | cons hpart _ ih =>
    refine Matches.bind hpart fun v w hv => ?_
    rw [hv.isNull]
    split
    · exact ih
    · exact .pure hv

/-- Conjunctions and disjunctions of matching parts match. -/
theorem matches_evalUntil (stop : Bool)
    (h : List.Forall₂ (sim.Paired s t) parts parts') :
    sim.Paired s t (evalUntil stop parts) (evalUntil stop parts') := by
  induction h with
  | nil => exact .pure rfl
  | @cons part part' rest rest' hpart hrest ih =>
    rcases hrest with _ | ⟨hnext, hrest⟩
    · exact hpart
    · refine Matches.bind hpart fun v w hv => ?_
      rw [hv.truthy]
      split
      · exact .pure hv
      · exact ih

/-- A form matches when its parts do. -/
theorem matches_eval (form : Form) (h : List.Forall₂ (sim.Paired s t) parts parts') :
    sim.Paired s t (form.eval parts) (form.eval parts') := by
  match form with
  | .concat =>
    refine (matches_evalConcat h "").bind fun out out' hout => ?_
    exact .pure (congrArg (fun text => Value.seen sim.marks (.string text)) hout)
  | .choose => exact matches_evalChoose h
  | .unless => exact matches_evalUnless h
  | .default => exact matches_evalDefault h
  | .all => exact matches_evalUntil false h
  | .any => exact matches_evalUntil true h

end Form

/-! ### Loops -/

/-- To evaluate bodies first and to join their texts afterwards makes no difference. -/
theorem roundsFrom_eq_roundsAtOnce (body : Lazy) (out : String) (scopes : List Scope) :
    roundsFrom body out scopes =
      roundsAtOnce body scopes >>= fun vs =>
        pure (vs.foldl (fun out v => out ++ v.output) out) := by
  induction scopes generalizing out with
  | nil => rfl
  | cons s scopes ih => simp [roundsFrom, roundsAtOnce, ih]

/-- Any value but `true` becomes the context of a section. -/
theorem wholeValue_of_ne (body : Lazy) {v : Value} (h : v ≠ .bool true) :
    wholeValue body v s = body (s.enter v) := by
  unfold wholeValue
  split
  · exact absurd rfl h
  · rfl

/-- Sections whose values look alike match when their bodies do: in the scope around them where the
value is `true`, and in the context of the value otherwise. -/
theorem matches_wholeValue {body body' : Lazy} {v w : Value} (hv : v.Alike sim.marks w)
    (htrue : v = .bool true → sim.Paired s t body body')
    (hother : sim.Paired (s.enter v) (t.enter w) body body') :
    sim.Matches (Value.Alike sim.marks) (wholeValue body v s) (wholeValue body' w t) := by
  by_cases h : v = .bool true
  · subst h
    obtain rfl : w = .bool true := Value.alike_bool.mp hv
    exact htrue rfl
  · have h' : w ≠ .bool true := by
      rintro rfl
      exact h (Value.alike_bool.mp hv.symm)
    rw [wholeValue_of_ne body h, wholeValue_of_ne body' h']
    exact hother

namespace LoopStyle

/-- All rounds of a loop are run one after the other. -/
theorem run_eq (style : LoopStyle) (body : Lazy) (source : Value) (s : Scope) :
    style.run body source s =
      match source.items with
      | [] => pure none
      | items => do
        return some (← roundsFrom body "" (items.map fun item => style.round s item.1 item.2)) := by
  unfold LoopStyle.run
  cases source.items with
  | nil => rfl
  | cons item items =>
    simp only [roundsFrom_eq_roundsAtOnce, bind_assoc, pure_bind, ite_self]

/-- Rounds in matching scopes match. -/
theorem matches_roundsFrom {body body' : Lazy} {scopes scopes' : List Scope}
    (h : List.Forall₂ (fun s t => sim.Paired s t body body') scopes scopes')
    (out : String) :
    sim.Matches (· = ·) (roundsFrom body out scopes) (roundsFrom body' out scopes') := by
  induction h generalizing out with
  | nil => exact .pure rfl
  | cons hround _ ih =>
    refine Matches.bind hround fun v w hv => ?_
    rw [hv.output]
    exact ih _

variable {style style' : LoopStyle} {selector selector' body body' branch branch' : Lazy}

/-- A loop matches another one when its parts do and its body does in every round, in the context
of a value that has no rounds, and, where it is a section, in the scope around it. -/
theorem matches_eval (hkind : style.kind = style'.kind)
    (hselector : sim.Paired s t selector selector')
    (hround : ∀ item item', itemAlike sim.marks item item' →
      sim.Paired (style.round s item.1 item.2) (style'.round t item'.1 item'.2) body body')
    (hwhole : style.kind = .section → ∀ v w E E' F', selector s E = some (.ok v, E') →
      v.Alike sim.marks w → sim.rel E' F' → (∃ F, sim.rel E F) →
      sim.Joint (Value.Alike sim.marks) (wholeValue body v s E') (wholeValue body' w t F'))
    (hbranch : sim.Paired s t branch branch') :
    sim.Paired s t (style.eval selector body branch)
      (style'.eval selector' body' branch') := by
  refine Matches.bind_ends hselector fun v w E E' F' heval hv hrel hstart => ?_
  have hitems? : v.items?.isNone = w.items?.isNone := by
    have h := congrArg (fun v => (Value.items? v).isNone) hv
    simpa [Value.items?_seen] using h
  rw [hv.truthy, hitems?, hkind, run_eq, run_eq]
  split
  · exact hbranch hrel
  · split
    · next hsection => exact hwhole (hkind.trans hsection.1) v w E E' F' heval hv hrel hstart
    · have hitems := hv.items
      generalize v.items = items at hitems
      generalize w.items = items' at hitems
      rcases hitems with _ | ⟨hitem, hrest⟩
      · exact hbranch hrel
      · refine (Matches.bind (Q := (· = ·)) ?_ fun text text' htext => ?_) hrel
        · refine (matches_roundsFrom ?_ "").bind fun text text' htext =>
            .pure (congrArg some htext)
          refine .cons (hround _ _ hitem) ?_
          rw [List.forall₂_map_left_iff, List.forall₂_map_right_iff]
          exact hrest.imp fun _ _ h => hround _ _ h
        · subst htext
          cases text with
          | some text => exact .pure rfl
          | none => exact hbranch

end LoopStyle

/-! ### Contexts -/

/-- Matching named parts have values that are alike. -/
theorem matches_evalNamed {named named' : List (String × Lazy)}
    (h : List.Forall₂ (sim.NamedPaired s t) named named') :
    sim.Matches (fun vs ws => Keyed.Alike sim.marks vs ws ∧ vs.isEmpty = named.isEmpty)
      (evalNamed named s) (evalNamed named' t) := by
  induction h with
  | nil => exact .pure ⟨rfl, rfl⟩
  | @cons entry entry' _ _ hentry _ ih =>
    obtain ⟨name, value⟩ := entry
    obtain ⟨name', value'⟩ := entry'
    obtain ⟨rfl, hvalue⟩ := hentry
    refine Matches.bind hvalue fun v w hv => ih.bind fun vs ws hvs => .pure ⟨?_, rfl⟩
    exact congrArg₂ (fun v vs => (name, v) :: vs) hv hvs.1

/-- Matching parts that may be missing have values that are alike. -/
theorem matches_evalOptional {value value' : Option Lazy}
    (h : Option.Rel (sim.Paired s t) value value') :
    sim.Matches (optionalAlike sim.marks) (evalOptional value s) (evalOptional value' t) := by
  cases h with
  | none => exact .pure rfl
  | some hvalue => exact Matches.bind hvalue fun v w hv => .pure (congrArg some hv)

/-- The scope of a block with a context of its own. -/
def contextScope (params : List String) (framed : Bool) (s : Scope) (context : Value) : Scope :=
  if framed || !params.isEmpty then s.enter context (params.zip [context]) else s.rebase context

/-- A block with a context of its own matches another one when its parts do and its body does in
the scopes of the block. -/
theorem matches_evalContext {params : List String} {framed framed' : Bool}
    {named named' : List (String × Lazy)} {value value' : Option Lazy} {body body' : Lazy}
    (hnamed : List.Forall₂ (sim.NamedPaired s t) named named')
    (hvalue : Option.Rel (sim.Paired s t) value value')
    (hbody : ∀ replaces v w, v.Alike sim.marks w →
      sim.Paired (contextScope params (replaces && framed) s v)
        (contextScope params (replaces && framed') t w) body body') :
    sim.Paired s t (evalContext params framed named value body)
      (evalContext params framed' named' value' body') := by
  refine Matches.bind (matches_evalNamed hnamed) fun vs ws hvs => ?_
  refine Matches.bind (matches_evalOptional hvalue) fun v w hv => ?_
  have hnew := congrArg₂ newContext hvs.1 hv
  rw [newContext_seen, newContext_seen] at hnew
  generalize newContext vs v = new at hnew ⊢
  generalize newContext ws w = new' at hnew ⊢
  obtain ⟨context, replaces⟩ := new
  obtain ⟨context', replaces'⟩ := new'
  obtain ⟨hcontext, rfl⟩ := Prod.mk.inj hnew
  refine (Matches.settle hcontext).bind fun context context' halike => ?_
  have h := hbody replaces context context' halike
  unfold Simulation.Paired contextScope at h
  rw [apply_ite body, apply_ite body'] at h
  exact h

/-! ### Templates -/

/-- The scope of a call of a template. -/
def TemplateEntry.scope (entry : TemplateEntry) (s : Scope) (context : Value) : Scope :=
  if entry.capturesScope then s.enter context else s.rebase context

/-- Two results of looking up a name: the same failure, or templates that are related. -/
inductive Found (R : TemplateEntry → TemplateEntry → Prop) :
    Except Error TemplateEntry → Except Error TemplateEntry → Prop
  | ok {entry entry' : TemplateEntry} : R entry entry' → Found R (.ok entry) (.ok entry')
  | error (err : Error) : Found R (.error err) (.error err)

/-- Where a template is called with values, its context does not depend on the caller. -/
theorem calledContext_of_values {values : Keyed Value} (h : values.isEmpty = false)
    (caller : Value) : calledContext values caller = calledContext values .null := by
  simp [calledContext, h]

/-- What is found under one relation is found under a weaker one. -/
theorem Found.imp {R S : TemplateEntry → TemplateEntry → Prop} {x y : Except Error TemplateEntry}
    (h : Found R x y) (hRS : ∀ entry entry', R entry entry' → S entry entry') : Found S x y := by
  cases h with
  | ok hentry => exact .ok (hRS _ _ hentry)
  | error err => exact .error err

/-- A call of a template matches another one when the names and the named values do, and when the
templates found under one name match in the contexts that they are called with. -/
theorem matches_evalTemplate {call call' : TemplateBody → Lazy} {name name' : Lazy}
    {named named' : List (String × Lazy)} (Key : String → Prop) {C : Value → Value → Prop}
    (hname : sim.Matches (fun v w => v.keyText = w.keyText ∧ Key v.keyText) (name s) (name' t))
    (hnamed : List.Forall₂ (sim.NamedPaired s t) named named')
    (hcaller : named = [] → C s.context t.context)
    (hcontext : named ≠ [] → ∀ v w, v.Alike sim.marks w → C v w)
    (hfound : ∀ E F, sim.rel E F → ∀ key, Key key →
      Found (fun x y => ∀ v w, C v w →
          sim.Paired (x.scope s v) (y.scope t w) (call x.body) (call' y.body))
        (E.templates.get key) (F.templates.get key)) :
    sim.Paired s t (evalTemplate call name named) (evalTemplate call' name' named') := by
  refine Matches.bind hname fun v w hkey => ?_
  obtain ⟨hkey, hK⟩ := hkey
  rw [← hkey]
  -- The template that is found is fixed here, before the arguments are evaluated.
  intro E F hrel
  have hget := hfound E F hrel v.keyText hK
  show sim.Joint _ ((EvalM.templates >>= _) E) ((EvalM.templates >>= _) F)
  rw [EvalM.bind_apply, EvalM.bind_apply]
  simp only [EvalM.templates]
  generalize E.templates.get v.keyText = x at hget ⊢
  generalize F.templates.get v.keyText = y at hget ⊢
  cases hget with
  | error err => exact .error hrel
  | @ok x y hentry =>
    refine (Matches.bind (P := Value.Alike sim.marks) (matches_evalNamed hnamed)
      fun vs ws hvs => ?_) hrel
    obtain ⟨hvs, hempty⟩ := hvs
    have hempty' : ws.isEmpty = vs.isEmpty := by
      have h := congrArg List.isEmpty hvs
      simpa using h.symm
    rw [hempty', hempty]
    have hentry' : ∀ v w, C v w → sim.Matches (Value.Alike sim.marks)
        (call x.body (if x.capturesScope then s.enter v else s.rebase v))
        (call' y.body (if y.capturesScope then t.enter w else t.rebase w)) := hentry
    cases hnil : named with
    | nil => exact hentry' _ _ (hcaller hnil)
    | cons entry rest =>
      have hne : named ≠ [] := by simp [hnil]
      rw [hnil] at hempty
      rw [calledContext_of_values hempty, calledContext_of_values (hempty'.trans hempty)]
      refine (Matches.settle ?_).bind fun context context' h => hentry' _ _ (hcontext hne _ _ h)
      have h := congrArg (calledContext · (Value.null.seen sim.marks)) hvs
      rwa [calledContext_seen, calledContext_seen] at h

/-- A definition of a template matches another one when the names do, and when the effects stay
related. -/
theorem matches_evalDefinition {name name' : Lazy}
    {entry entry' : Registry → String → TemplateEntry}
    (hname : sim.Paired s t name name')
    (hentry : ∀ E F, sim.rel E F → ∀ key,
      sim.rel { E with templates := E.templates.define (entry E.templates key) }
        { F with templates := F.templates.define (entry' F.templates key) }) :
    sim.Paired s t (evalDefinition name entry) (evalDefinition name' entry') := by
  refine Matches.bind hname fun v w hv => ?_
  rw [hv.keyText]
  intro E F hrel
  exact .ok rfl (hentry E F hrel _)

/-! ### Methods -/

/-- Matching arguments are evaluated to arguments that are alike. -/
theorem matches_evalBuiltArguments {args args' : List (Option String × Lazy)}
    (h : List.Forall₂ (sim.NamedPaired s t) args args') {done done' : Arguments}
    (hdone : done.Alike sim.marks done') :
    sim.Matches (Arguments.Alike sim.marks) (evalBuiltArguments args done s)
      (evalBuiltArguments args' done' t) := by
  induction h generalizing done done' with
  | nil => exact .pure hdone
  | @cons arg arg' _ _ harg _ ih =>
    obtain ⟨name?, value⟩ := arg
    obtain ⟨name?', value'⟩ := arg'
    obtain ⟨rfl, hvalue⟩ := harg
    refine Matches.bind hvalue fun v w hv => ih ?_
    unfold Arguments.Alike
    rw [Arguments.push_seen, Arguments.push_seen, hdone, hv]

/-- Two answers have the same lines and the same failure or values that look alike. -/
def Answer.Same (marks : Sight) (answer answer' : Answer) : Prop :=
  answer.log = answer'.log ∧
    match answer.outcome, answer'.outcome with
    | .ok v, .ok w => v.Alike marks w
    | .error err, .error err' => err = err'
    | _, _ => False

/-- An answer is the same as itself. -/
theorem Answer.Same.refl (marks : Sight) (answer : Answer) : answer.Same marks answer := by
  refine ⟨rfl, ?_⟩
  cases answer.outcome <;> rfl

/-- Two methods answer alike: the first one may be excused, and otherwise both answer the same. -/
def Answer.Alike (sim : Simulation) (answer answer' : Answer) : Prop :=
  (∃ err, answer.outcome = .error err ∧ sim.excused err) ∨ answer.Same sim.marks answer'

/-- A call of a method matches another one when they answer alike and the effects stay related
where they log lines. -/
theorem matches_call {m m' : Method} {args args' : Arguments}
    (hanswer : (m.run args).Alike sim (m'.run args'))
    (hlog : ∀ E F, sim.rel E F →
      sim.rel { E with log := E.log ++ (m.run args).log }
        { F with log := F.log ++ (m.run args).log }) :
    sim.Matches (Value.Alike sim.marks) (m.call args) (m'.call args') := by
  intro E F hrel
  have hrel' := hlog E F hrel
  unfold Method.call
  rcases hanswer with ⟨err, herr, hexcused⟩ | ⟨hlines, houtcome⟩
  · simp only [EvalM.bind_apply, EvalM.logLines, EvalM.ofExcept, herr]
    exact .excused hexcused
  · simp only [EvalM.bind_apply, EvalM.logLines, EvalM.ofExcept, ← hlines]
    generalize (m.run args).outcome = o at houtcome ⊢
    generalize (m'.run args').outcome = o' at houtcome ⊢
    rcases o with err | v <;> rcases o' with err' | w
    · obtain rfl : err = err' := houtcome
      exact .error hrel'
    · exact houtcome.elim
    · exact houtcome.elim
    · exact Matches.settle houtcome hrel'

end Stencil
