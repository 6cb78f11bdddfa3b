import Mathlib.Data.List.Forall2
import Stencil.Proofs.Determinism

/-!
# Upward reads with nothing around

Where no block is around, an upward read has only the context to look at. For paths that it resolves
as the context does, it can be replaced by the read of the context: in arguments of any depth, but
not inside of blocks, whose parts are evaluated in scopes of their own. An expression and what it is
lowered to in this way call the same operations otherwise, so they are refused for the same reasons,
are folded alike, and are built with the same effects into fragments that are evaluated alike.

The replaced read is no call and could be folded, while the upward read never is. This makes no
difference as long as the context is not known: both are not deterministic then.

## Main results

* `Layer.Lowered.run_eq`: layers are evaluated alike at a scope when their parts are.
* `Expr.Lowered.eval_eq`: an expression and what it is lowered to are evaluated alike.
* `Expr.Lowered.build_matches`: the two are built alike.
* `Expr.Lowered.compile_render`: the two make templates that render alike.
-/

namespace Stencil

open Simulation (Matches exact)
open Fragment (exact_paired eq_of_exact_paired)
open Layer (NamedRel)

/-! ### Scopes -/

/-- Upward reads of plain paths lead where the reads of the context do. -/
def Scope.ReadsHere (plain : String → Prop) (s : Scope) : Prop :=
  ∀ path, plain path → s.lookup path = (Path.ofText path).resolve s.context

/-- There is nothing to be read in nothing. -/
theorem Value.read_null (segments : List String) : Value.null.read segments = .null := by
  induction segments with
  | nil => rfl
  | cons segment rest ih =>
    unfold read
    split
    · exact ih
    · simp [get?, count]

/-- Where there is no context at all, every read leads to nothing. -/
theorem Scope.readsHere_null (plain : String → Prop) : (Scope.root .null).ReadsHere plain := by
  intro path _
  have hlookup : (Scope.root .null).lookup path = .null := by
    simp only [lookup]
    split
    · rfl
    · split
      · rfl
      · rw [find?_root]
        rfl
  rw [hlookup]
  exact (Value.read_null _).symm

/-! ### Layers -/

/-- Whether an operation evaluates parts in scopes of their own, or leaves them for later. -/
def Operation.isBlock : Operation → Bool
  | .loop _ | .context | .define => true
  | _ => false

/-- The name does not call a block. -/
def Operations.CallsNoBlock (operations : Operations) (name : String) : Prop :=
  ∀ op, Keyed.find? name operations = some op → op.isBlock = false

namespace Layer

variable {α : Type} {plain : String → Prop} {R : α → α → Prop} {l l' : Layer α}
  {call : TemplateBody → Lazy} {eval : α → Lazy} {s : Scope}

/-- Whether the layer has parts in scopes of their own, or leaves them for later. -/
def isBlock : Layer α → Bool
  | .loop .. | .context .. | .define .. => true
  | _ => false

/-- Outside of blocks, a layer is evaluated as its parts are at one scope. -/
theorem Rel.run_eq (h : l.Rel .same R l') (hblock : l.isBlock = false)
    (hparts : ∀ a b, R a b → eval a s = eval b s) : l.run call eval s = l'.run call eval s := by
  refine eq_of_exact_paired (m := l.run call eval) (n := l'.run call eval) ?_
  have hpaired : ∀ a b, R a b → exact.Paired s s (eval a) (eval b) := fun a b hab =>
    exact_paired (hparts a b hab)
  cases h with
  | value | path | lookup | position | refused => exact exact_paired rfl
  | loop | context | define => cases hblock
  | form f hps =>
    refine f.matches_eval ?_
    rw [List.forall₂_map_left_iff, List.forall₂_map_right_iff]
    exact hps.imp hpaired
  | template _ hname hnamed =>
    refine matches_evalTemplate (C := Eq) (fun _ => True)
      ((hpaired _ _ hname).mono fun v w hv => ⟨hv.keyText, trivial⟩)
      (forall₂_mapValues hnamed hpaired) (fun _ => rfl) (fun _ _ _ => Value.alike_full.mp) ?_
    rintro E _ rfl key _
    cases E.templates.get key with
    | error err => exact .error err
    | ok entry =>
      refine .ok ?_
      rintro v _ rfl
      exact exact_paired rfl
  | @method m _ _ _ hm hargs =>
    obtain rfl := hm
    refine (matches_evalBuiltArguments (forall₂_mapValues hargs hpaired) rfl).bind ?_
    intro args args' hargs
    obtain rfl := Arguments.alike_full.mp hargs
    exact exact_paired (m := fun _ => m.call args) (n := fun _ => m.call args) (s := s) (t := s) rfl

/-- Layers are the same, or the second one reads from the context where the first one reads upward,
or outside of blocks they have one form. -/
inductive Lowered (plain : String → Prop) (R : α → α → Prop) : Layer α → Layer α → Prop
  | refl (l : Layer α) : Lowered plain R l l
  | read {path : String} : plain path → Lowered plain R (.lookup path) (.path (.ofText path))
  | parts {l l' : Layer α} : l.isBlock = false → l.Rel .same R l' → Lowered plain R l l'

/-- Layers are evaluated alike at a scope when their parts are. -/
theorem Lowered.run_eq (h : Lowered plain R l l') (hs : s.ReadsHere plain)
    (hparts : ∀ a ∈ l.parts, ∀ b, R a b → eval a s = eval b s) :
    l.run call eval s = l'.run call eval s := by
  cases h with
  | refl => rfl
  | read hpath => exact congrArg pure (hs _ hpath)
  | parts hblock h =>
    exact (h.weaken (S := fun a b => eval a s = eval b s) id (fun _ _ => id) (fun _ _ _ _ => id)
      hparts).run_eq hblock fun _ _ => id

end Layer

/-! ### Arguments that are related -/

/-- Putting in related values under one key keeps lists related. -/
theorem Keyed.forall₂_insert {α β : Type} {R : α → β → Prop} {es : Keyed α} {fs : Keyed β}
    (h : List.Forall₂ (NamedRel R) es fs) (key : String) {v : α} {w : β} (hvw : R v w) :
    List.Forall₂ (NamedRel R) (insert key v es) (insert key w fs) := by
  induction h with
  | nil => exact .cons ⟨rfl, hvw⟩ .nil
  | @cons entry entry' _ _ hentry hrest ih =>
    obtain ⟨k, x⟩ := entry
    obtain ⟨k', y⟩ := entry'
    obtain ⟨rfl, hxy⟩ := hentry
    unfold insert
    split
    · exact .cons ⟨rfl, hvw⟩ hrest
    · exact .cons ⟨rfl, hxy⟩ ih

namespace Split

variable {α β : Type} {R : α → β → Prop} {split : Split α} {split' : Split β}
  {named? : α → Option (String × α)} {named?' : β → Option (String × β)}

/-- Two argument lists that have been taken apart are related. -/
structure Related (R : α → β → Prop) (split : Split α) (split' : Split β) : Prop where
  positional : List.Forall₂ R split.positional split'.positional
  named : List.Forall₂ (NamedRel R) split.named split'.named

/-- Related arguments are split off alike. -/
theorem Related.push (h : Related R split split') {a : α} {b : β} (hab : R a b)
    (hname : Option.Rel (NamedRel R) (named? a) (named?' b)) :
    Related R (split.push named? a) (split'.push named?' b) := by
  unfold Split.push
  generalize named? a = x at hname ⊢
  generalize named?' b = y at hname ⊢
  cases hname with
  | none => exact ⟨List.rel_append h.positional (.cons hab .nil), h.named⟩
  | @some entry entry' hentry =>
    obtain ⟨key, v⟩ := entry
    obtain ⟨key', w⟩ := entry'
    obtain ⟨rfl, hvw⟩ := hentry
    exact ⟨h.positional, Keyed.forall₂_insert h.named key hvw⟩

/-- Related arguments are taken apart into related ones. -/
theorem Related.ofList (hnamed : ∀ a b, R a b → Option.Rel (NamedRel R) (named? a) (named?' b))
    {as : List α} {bs : List β} (h : List.Forall₂ R as bs) :
    Related R (ofList named? as) (ofList named?' bs) := by
  suffices hfold : ∀ {split : Split α} {split' : Split β}, Related R split split' →
      Related R (as.foldl (Split.push named?) split) (bs.foldl (Split.push named?') split') from
    hfold ⟨.nil, .nil⟩
  induction h with
  | nil => exact id
  | cons hab _ ih => exact fun h => ih (h.push hab (hnamed _ _ hab))

/-- The parameters of a block are left out on both sides. -/
theorem Related.values (h : Related R split split') :
    List.Forall₂ (NamedRel R) split.values split'.values :=
  List.rel_filter (fun _ _ hentry => by simp only [hentry.1]) h.named

end Split

/-! ### Expressions -/

namespace Expr

/-- The second expression reads plain paths from the context where the first one may look them up,
outside of blocks. -/
inductive Lowered (operations : Operations) (plain : String → Prop) : Expr → Expr → Prop
  | refl (e : Expr) : Lowered operations plain e e
  | read {operation path : String} : Keyed.find? operation operations = some .lookup →
      plain path → Lowered operations plain (.call operation [.text path]) (.path (.ofText path))
  | named (name : String) {e e' : Expr} : Lowered operations plain e e' →
      Lowered operations plain (.named name e) (.named name e')
  | call {operation : String} {args args' : List Expr} : operations.CallsNoBlock operation →
      List.Forall₂ (Lowered operations plain) args args' →
      Lowered operations plain (.call operation args) (.call operation args')

variable {operations : Operations} {plain : String → Prop} {e e' : Expr} {args args' : List Expr}

namespace Lowered

/-- Lowering keeps the name of an argument. -/
theorem named? (h : Lowered operations plain e e') :
    Option.Rel (NamedRel (Lowered operations plain)) e.named? e'.named? := by
  cases h with
  | refl =>
    cases e with
    | named name value => exact .some ⟨rfl, .refl value⟩
    | _ => exact .none
  | named name h => exact .some ⟨rfl, h⟩
  | read | call => exact .none

/-- Only a literal is lowered to a literal. -/
theorem literal_iff (h : Lowered operations plain e e') (v : Value) :
    e = .literal v ↔ e' = .literal v := by
  cases h with
  | refl => rfl
  | read | named | call => exact ⟨nofun, nofun⟩

/-- Arguments that have been lowered are split alike. -/
theorem splitArgs (h : List.Forall₂ (Lowered operations plain) args args') :
    (splitArgs args).Related (Lowered operations plain) (Stencil.splitArgs args') :=
  .ofList (fun _ _ h => h.named?) h

/-- Lowering keeps the path of an upward read. -/
theorem upwardPath (h : List.Forall₂ (Lowered operations plain) args args') :
    Operation.upwardPath args = Operation.upwardPath args' := by
  cases h with
  | nil => rfl
  | cons h _ =>
    cases h with
    | refl =>
      rename_i a _ _ _
      rcases a with ⟨_ | _⟩ | _ | _ | _ <;> rfl
    | read | named | call => rfl

/-- The arguments of a method keep their names. -/
theorem namedArgs (h : List.Forall₂ (Lowered operations plain) args args') :
    List.Forall₂ (NamedRel (Lowered operations plain))
      (args.map fun e => (e.named?.map Prod.fst, e))
      (args'.map fun e => (e.named?.map Prod.fst, e)) := by
  rw [List.forall₂_map_left_iff, List.forall₂_map_right_iff]
  refine h.imp fun a b hab => ⟨?_, hab⟩
  have hname := hab.named?
  generalize a.named? = x at hname ⊢
  generalize b.named? = y at hname ⊢
  cases hname with
  | none => rfl
  | some hentry => exact congrArg some hentry.1

/-- An operation that is no block has layers that are lowered with its arguments. -/
theorem operation_layer {op : Operation} (hblock : op.isBlock = false) (mode : Mode)
    (h : List.Forall₂ (Lowered operations plain) args args') :
    (op.layer operations mode args).Lowered plain (Lowered operations plain)
      (op.layer operations mode args') := by
  have hsplit := splitArgs h
  cases op with
  | loop | context | define => cases hblock
  | form f => exact .parts rfl (.form f hsplit.positional)
  | template =>
    simp only [Operation.layer]
    have hpositional := hsplit.positional
    generalize (Stencil.splitArgs args).positional = positional at hpositional ⊢
    generalize (Stencil.splitArgs args').positional = positional' at hpositional ⊢
    cases hpositional with
    | nil => exact .refl _
    | cons hname _ => exact .parts rfl (.template trivial hname hsplit.values)
  | lookup =>
    simp only [Operation.layer, upwardPath h]
    exact .refl _
  | position read => exact .refl _
  | method m =>
    simp only [Operation.layer]
    split
    · exact .refl _
    · exact .parts rfl (.method rfl (namedArgs h))

/-- The layers of an expression are lowered with it. -/
theorem layer (mode : Mode) {e e' : Expr} (h : Lowered operations plain e e') :
    (e.layer operations mode).Lowered plain (Lowered operations plain)
      (e'.layer operations mode) := by
  cases h with
  | refl e => exact .refl _
  | named _ h => exact h.layer mode
  | read hop hpath =>
    rw [layer_of_find? hop]
    exact .read hpath
  | @call operation args args' hblock h =>
    cases hop : Keyed.find? operation operations with
    | some op =>
      rw [layer_of_find? hop, layer_of_find? hop]
      exact operation_layer (hblock op hop) mode h
    | none =>
      rw [layer_of_find?_none hop, layer_of_find?_none hop]
      exact .refl _

/-- An expression and what it is lowered to are evaluated alike. -/
theorem eval_eq (walk : Walk) {s : Scope} (hs : s.ReadsHere plain) (e : Expr) :
    ∀ e', Lowered walk.operations plain e e' → e.eval walk s = e'.eval walk s := by
  induction e using Expr.layer_induction walk.operations walk.mode with
  | step e ih =>
    intro e' h
    rw [eval_eq_run, eval_eq_run walk e']
    exact (h.layer walk.mode).run_eq hs ih

/-! ### What is known beforehand -/

/-- Where a treatment gives each argument what it gives to what that is lowered to, it gives all of
them the same. -/
theorem map_congr {α : Type} {f : Expr → α}
    (h : List.Forall₂ (Lowered operations plain) args args')
    (hf : ∀ a ∈ args, ∀ b, Lowered operations plain a b → f a = f b) :
    args.map f = args'.map f := by
  rw [← List.forall₂_eq_eq_eq]
  exact Layer.forall₂_map_mem h hf

end Lowered

/-- The first operation of a call is its own, or that of its first argument with one. -/
theorem firstOperation?_call (sought : Operation → Bool) (operation : String) (args : List Expr) :
    (Expr.call operation args).firstOperation? operations sought =
      if (Keyed.find? operation operations).all sought then some operation
      else (args.map (firstOperation? operations sought)).findSome? id := by
  have hargs : ∀ args : List Expr, ((callsIn args).map Prod.fst).find?
      (fun name => (Keyed.find? name operations).all sought) =
        (args.map (firstOperation? operations sought)).findSome? id := by
    intro args
    induction args with
    | nil => rfl
    | cons e args ih =>
      rw [callsIn, List.map_append, List.find?_append, ih, List.map_cons, List.findSome?_cons,
        firstOperation?]
      cases List.find? _ (e.calls.map Prod.fst) <;> rfl
  rw [firstOperation?, calls, List.map_cons, List.find?_cons, hargs]
  split <;> simp_all

namespace Lowered

/-- The same operation is the first one, unless upward reads are sought. -/
theorem firstOperation?_eq {sought : Operation → Bool} (hsought : sought .lookup = false)
    (e : Expr) : ∀ e', Lowered operations plain e e' →
      e.firstOperation? operations sought = e'.firstOperation? operations sought := by
  induction e using Expr.induction with
  | literal v | path p =>
    intro e' h
    cases h
    rfl
  | named name value ih =>
    intro e' h
    cases h with
    | refl => rfl
    | @named _ _ value' h => exact ih value' h
  | call operation args ih =>
    intro e' h
    cases h with
    | refl => rfl
    | read hop hpath =>
      rw [firstOperation?_call, hop]
      simp [hsought, firstOperation?, calls, Expr.text]
    | call hblock h =>
      rw [firstOperation?_call, firstOperation?_call,
        map_congr h fun a ha => ih a (size_le_sizes ha)]

variable {registry : Registry}

/-- A call of a template hangs on the name of the template and on the values it is given. -/
theorem template_determinacy (h : List.Forall₂ (Lowered operations plain) args args')
    (hargs : ∀ a, a.size ≤ sizes args → ∀ b, Lowered operations plain a b →
      a.determinacy operations registry false = b.determinacy operations registry false) :
    Operation.template.determinacy registry
        (Operand.ofLists args (args.map (determinacy operations registry))) false =
      Operation.template.determinacy registry
        (Operand.ofLists args' (args'.map (determinacy operations registry))) false := by
  have hf : Operand.Unnamed (determinacy operations registry) := fun _ _ => rfl
  have hsplit := splitArgs h
  have hsize := forall_splitArgs (P := fun e => e.size ≤ sizes args)
    (fun _ => size_le_sizes) fun _ _ h => h
  have hvalues : (Stencil.splitArgs args).values.map
      (fun entry => entry.2.determinacy operations registry false) =
        (Stencil.splitArgs args').values.map
          (fun entry => entry.2.determinacy operations registry false) := by
    rw [← List.forall₂_eq_eq_eq]
    refine Layer.forall₂_map_mem hsplit.values fun entry hentry entry' hrel => ?_
    exact hargs _ (hsize.2 entry (List.mem_of_mem_filter hentry)) _ hrel.2
  have hempty : (Stencil.splitArgs args).values.isEmpty =
      (Stencil.splitArgs args').values.isEmpty := by
    simpa using congrArg List.isEmpty hvalues
  have hknown : (Stencil.splitArgs args).values.all
      (fun entry => entry.2.determinacy operations registry false) =
        (Stencil.splitArgs args').values.all
          (fun entry => entry.2.determinacy operations registry false) := by
    simpa [Function.comp_def] using congrArg (List.all · id) hvalues
  simp only [Operation.determinacy, Operand.split_map hf, Operand.values_map hf,
    Keyed.mapValues, List.isEmpty_map, List.all_map, Function.comp_def, hempty, hknown]
  have hpositional := hsplit.positional
  generalize (Stencil.splitArgs args).positional = positional at hpositional ⊢
  generalize (Stencil.splitArgs args').positional = positional' at hpositional ⊢
  cases hpositional with
  | nil => rfl
  | @cons a b _ _ hab _ =>
    -- The name is known when it is a literal, and is then the same.
    have hliteral := hab.literal_iff
    cases a with
    | literal v =>
      obtain rfl := (hliteral v).mp rfl
      rfl
    | path | named | call =>
      cases b with
      | literal v => cases (hliteral v).mpr rfl
      | path | named | call => rfl

/-- With an unknown context, a call of an operation that is no block is as deterministic as what it
is lowered to. -/
theorem operation_determinacy {op : Operation} (hblock : op.isBlock = false)
    (h : List.Forall₂ (Lowered operations plain) args args')
    (hargs : ∀ a, a.size ≤ sizes args → ∀ b, Lowered operations plain a b →
      a.determinacy operations registry false = b.determinacy operations registry false) :
    op.determinacy registry
        (Operand.ofLists args (args.map (determinacy operations registry))) false =
      op.determinacy registry
        (Operand.ofLists args' (args'.map (determinacy operations registry))) false := by
  have hmade : ∀ args : List Expr,
      ((Operand.ofLists args (args.map (determinacy operations registry))).all
        fun o => o.made false) =
          (args.map fun e => e.determinacy operations registry false).all id := by
    intro args
    rw [Operand.ofLists_map]
    simp [Operand.of, Function.comp_def]
  have hall := map_congr h fun a ha => hargs a (size_le_sizes ha)
  cases op with
  | loop | context | define => cases hblock
  | form | method => simp only [Operation.determinacy, hmade, hall]
  | template => exact template_determinacy h hargs
  | lookup | position => rfl

/-- With an unknown context, an expression is as deterministic as what it is lowered to. -/
theorem determinacy_eq (e : Expr) : ∀ e', Lowered operations plain e e' →
    e.determinacy operations registry false = e'.determinacy operations registry false := by
  induction e using Expr.induction with
  | literal v | path p =>
    intro e' h
    cases h
    rfl
  | named name value ih =>
    intro e' h
    cases h with
    | refl => rfl
    | @named _ _ value' h => exact ih value' h
  | call operation args ih =>
    intro e' h
    cases h with
    | refl => rfl
    | read hop hpath => simp only [determinacy, hop, Operation.determinacy]
    | call hblock h =>
      simp only [determinacy, determinacies_eq_map]
      cases hop : Keyed.find? operation operations with
      | none => rfl
      | some op => exact operation_determinacy (hblock op hop) h ih

end Lowered

end Expr

/-! ### What is built -/

namespace Fragment

/-- Two fragments have to be awaited alike, and are evaluated alike where upward reads of plain
paths lead where the reads of the context do. -/
structure AlikeHere (plain : String → Prop) (f f' : Fragment) : Prop where
  shape : f.shape = f'.shape
  awaited? : f.awaited? = f'.awaited?
  eval : ∀ setup s, s.ReadsHere plain → f.eval setup s = f'.eval setup s

variable {plain : String → Prop} {f f' : Fragment}

namespace AlikeHere

/-- A fragment is like itself. -/
theorem refl (f : Fragment) : AlikeHere plain f f :=
  ⟨rfl, rfl, fun _ _ _ => rfl⟩

/-- Fragments with lowered layers are alike when they have to be awaited alike. -/
theorem of_layer (hshape : f.shape = f'.shape) (hawaited : f.awaited? = f'.awaited?)
    (hlayer : ∀ mode, (f.layer mode).Lowered plain (AlikeHere plain) (f'.layer mode)) :
    AlikeHere plain f f' where
  shape := hshape
  awaited? := hawaited
  eval setup s hs := by
    rw [eval_eq_run, eval_eq_run setup f']
    exact (hlayer setup.mode).run_eq hs fun _ _ _ h => h.eval setup s hs

/-- Fragments that are alike have one shape together. -/
theorem shapeAll {fs fs' : List Fragment} (h : List.Forall₂ (AlikeHere plain) fs fs') :
    Fragment.shapeAll fs = Fragment.shapeAll fs' := by
  induction h with
  | nil => rfl
  | cons hf _ ih => rw [Fragment.shapeAll, Fragment.shapeAll, hf.shape, ih]

/-- Named fragments that are alike have values that are. -/
theorem values {κ : Type} {fs fs' : List (κ × Fragment)}
    (h : List.Forall₂ (NamedRel (AlikeHere plain)) fs fs') :
    List.Forall₂ (AlikeHere plain) (fs.map Prod.snd) (fs'.map Prod.snd) := by
  rw [List.forall₂_map_left_iff, List.forall₂_map_right_iff]
  exact h.imp fun _ _ hentry => hentry.2

/-- An upward read of a plain path is like the read of the context. -/
theorem read {path : String} (h : plain path) :
    AlikeHere plain (.lookup path) (.path (.ofText path)) :=
  of_layer rfl rfl fun _ => .read h

/-- Forms of parts that are alike are alike. -/
theorem form (fm : Form) {fs fs' : List Fragment} (h : List.Forall₂ (AlikeHere plain) fs fs') :
    AlikeHere plain (.form fm fs) (.form fm fs') :=
  of_layer (shapeAll h) rfl fun _ => .parts rfl (.form fm h)

/-- Template calls with names and arguments that are alike are alike. -/
theorem template {named named' : List (String × Fragment)} (hname : AlikeHere plain f f')
    (hnamed : List.Forall₂ (NamedRel (AlikeHere plain)) named named') :
    AlikeHere plain (.template f named) (.template f' named') := by
  refine of_layer ?_ rfl fun _ => .parts rfl (.template trivial hname hnamed)
  rw [Fragment.shape, Fragment.shape, shapeNamed_eq_shapeAll, shapeNamed_eq_shapeAll, hname.shape,
    shapeAll (values hnamed)]

/-- Method calls with arguments that are alike are alike. -/
theorem method (m : Method) {args args' : List (Option String × Fragment)}
    (hargs : List.Forall₂ (NamedRel (AlikeHere plain)) args args') :
    AlikeHere plain (.method m args) (.method m args') := by
  refine of_layer ?_ rfl fun mode => ?_
  · rw [Fragment.shape, Fragment.shape, shapeArgs_eq_shapeAll, shapeArgs_eq_shapeAll,
      shapeAll (values hargs)]
  · simp only [Fragment.layer]
    split
    · exact .refl _
    · exact .parts rfl (.method rfl hargs)

/-- Fragments that are alike stay so when the same is noted of both. -/
theorem awaiting (operation : String) (h : AlikeHere plain f f') :
    AlikeHere plain (.awaiting operation f) (.awaiting operation f') where
  shape := rfl
  awaited? := rfl
  eval setup s hs := by
    simp only [Fragment.eval]
    cases setup.mode with
    | sync => rfl
    | awaited => exact h.eval setup s hs

end AlikeHere

end Fragment

open Fragment (AlikeHere)

section Parts

variable {plain : String → Prop} {R : Expr → Expr → Prop} {build : Expr → EvalM Fragment}

/-- Lists of expressions that are built alike. -/
theorem matches_buildAll {es es' : List Expr} (h : List.Forall₂ R es es')
    (hbuild : ∀ e ∈ es, ∀ e', R e e' → exact.Matches (AlikeHere plain) (build e) (build e')) :
    exact.Matches (List.Forall₂ (AlikeHere plain)) (buildAll (es.map build))
      (buildAll (es'.map build)) := by
  induction h with
  | nil => exact .pure .nil
  | cons he _ ih =>
    rw [List.forall_mem_cons] at hbuild
    exact (hbuild.1 _ he).bind fun f f' hf => (ih hbuild.2).bind fun fs fs' hfs =>
      .pure (.cons hf hfs)

/-- Named expressions that are built alike. -/
theorem matches_buildKeyed {κ : Type} {es es' : List (κ × Expr)}
    (h : List.Forall₂ (NamedRel R) es es')
    (hbuild : ∀ e ∈ es, ∀ e', R e.2 e' → exact.Matches (AlikeHere plain) (build e.2) (build e')) :
    exact.Matches (List.Forall₂ (NamedRel (AlikeHere plain)))
      (buildKeyed (Keyed.mapValues build es)) (buildKeyed (Keyed.mapValues build es')) := by
  induction h with
  | nil => exact .pure .nil
  | @cons entry entry' _ _ he _ ih =>
    obtain ⟨key, e⟩ := entry
    obtain ⟨key', e'⟩ := entry'
    obtain ⟨rfl, he⟩ := he
    rw [List.forall_mem_cons] at hbuild
    exact (hbuild.1 _ he).bind fun f f' hf => (ih hbuild.2).bind fun fs fs' hfs =>
      .pure (.cons ⟨rfl, hf⟩ hfs)

end Parts

namespace Expr.Lowered

variable {engine : Engine} {plain : String → Prop} {args args' : List Expr} {depth : Nat}

/-- Lowering does not change what has to be awaited first. -/
theorem firstAsync?_eq {e e' : Expr} (h : Lowered engine.operations plain e e') :
    e.firstAsync? engine.operations = e'.firstAsync? engine.operations :=
  firstOperation?_eq rfl e e' h

/-- Expressions are folded like what they are lowered to. -/
theorem tryFold_eq {e e' : Expr} (h : Lowered engine.operations plain e e') :
    engine.tryFold depth e = engine.tryFold depth e' := by
  have heval : engine.evalExpr depth .sync e (Scope.root .null) =
      engine.evalExpr depth .sync e' (Scope.root .null) :=
    eval_eq { operations := engine.operations, mode := .sync, run := engine.runTemplate depth }
      (Scope.readsHere_null plain) e e' h
  have hdeterministic : ∀ registry, e.isDeterministic engine.operations registry =
      e'.isDeterministic engine.operations registry := fun _ => determinacy_eq e e' h
  unfold Engine.tryFold
  simp only [heval, hdeterministic, h.firstAsync?_eq]

/-- Calls of an operation that is no block are built like what they are lowered to. -/
theorem operation_build_matches {op : Operation} (hblock : op.isBlock = false)
    (h : List.Forall₂ (Lowered engine.operations plain) args args')
    (hbuild : ∀ a, a.size ≤ sizes args → ∀ b, Lowered engine.operations plain a b →
      exact.Matches (AlikeHere plain) (engine.build depth a) (engine.build depth b)) :
    exact.Matches (AlikeHere plain)
      (op.build engine.operations (Operand.ofLists args (args.map (engine.build depth))))
      (op.build engine.operations (Operand.ofLists args' (args'.map (engine.build depth)))) := by
  have hf : Operand.Unnamed (engine.build depth) := fun _ _ => rfl
  have hsplit := splitArgs h
  obtain ⟨hpositional, hnamed⟩ := forall_splitArgs (P := fun e => e.size ≤ sizes args)
    (fun _ => size_le_sizes) fun _ _ h => h
  cases op with
  | loop | context | define => cases hblock
  | form f =>
    simp only [Operation.build, Operand.positional_map hf]
    exact (matches_buildAll hsplit.positional fun e he => hbuild e (hpositional e he)).bind
      fun fs fs' hfs => .pure (.form f hfs)
  | template =>
    simp only [Operation.build, Operand.positional_map hf, Operand.values_map hf]
    have hvalues := matches_buildKeyed hsplit.values fun entry hentry =>
      hbuild entry.2 (hnamed entry (List.mem_of_mem_filter hentry))
    have hheads := hsplit.positional
    generalize (Stencil.splitArgs args).positional = positional at hpositional hheads ⊢
    generalize (Stencil.splitArgs args').positional = positional' at hheads ⊢
    cases hheads with
    | nil => exact .throw _
    | cons hname _ =>
      exact (hbuild _ (hpositional _ List.mem_cons_self) _ hname).bind fun f f' hf =>
        hvalues.bind fun fs fs' hfs => .pure (.template hf hfs)
  | lookup =>
    simp only [Operation.build, Operand.map_expr, upwardPath h]
    exact (Matches.exact_refl _).mono fun f f' hf => hf ▸ .refl f
  | position read => exact .pure (.refl _)
  | method m =>
    simp only [Operation.build, Operand.made_map]
    refine (matches_buildKeyed (namedArgs h) fun entry hentry => ?_).bind
      fun fs fs' hfs => .pure (.method m hfs)
    obtain ⟨a, ha, rfl⟩ := List.mem_map.mp hentry
    exact hbuild a (size_le_sizes ha)

/-- An upward read is built into one, since it is never folded. -/
theorem build_read {operation path : String}
    (hop : Keyed.find? operation engine.operations = some .lookup) (hpath : plain path) :
    engine.build depth (.call operation [.text path]) = pure (.lookup path) := by
  have hget : engine.operations.get operation = .ok .lookup := Operations.get_eq_ok.mpr hop
  have hfold : engine.tryFold depth (.path (.ofText path)) = pure none := by
    funext E
    simp only [Engine.tryFold, isDeterministic, determinacy, Bool.and_false, Bool.false_and]
    rfl
  rw [Engine.build_call engine depth hget, tryFold_eq (.read hop hpath), hfold]
  rfl

/-- An expression is built like what it is lowered to. -/
theorem build_matches (depth : Nat) (e : Expr) : ∀ e', Lowered engine.operations plain e e' →
    exact.Matches (AlikeHere plain) (engine.build depth e) (engine.build depth e') := by
  have hrefl : ∀ m : EvalM Fragment, exact.Matches (AlikeHere plain) m m := fun m =>
    (Matches.exact_refl m).mono fun f f' hf => hf ▸ .refl f
  induction e using Expr.induction with
  | literal v | path p =>
    intro e' h
    cases h
    exact hrefl _
  | named name value ih =>
    intro e' h
    cases h with
    | refl => exact hrefl _
    | @named _ _ value' h => exact ih value' h
  | call operation args ih =>
    intro e' h
    cases h with
    | refl => exact hrefl _
    | read hop hpath =>
      rw [build_read hop hpath]
      exact .pure (.read hpath)
    | @call _ _ args' hblock h =>
      cases hop : Keyed.find? operation engine.operations with
      | none =>
        have herror : engine.operations.get operation = .error (.unknownOperation operation) :=
          Operations.get_of_find?_none hop
        simp only [Engine.build, herror]
        exact .throw _
      | some op =>
        have hget : engine.operations.get operation = .ok op := Operations.get_eq_ok.mpr hop
        rw [Engine.build_call engine depth hget, Engine.build_call engine depth hget,
          tryFold_eq (.call hblock h)]
        refine (Matches.exact_refl _).bind fun folded folded' hfolded => ?_
        obtain rfl := hfolded
        cases folded with
        | some v => exact .pure (.refl _)
        | none =>
          refine (operation_build_matches (hblock op hop) h ih).bind fun f f' hf => .pure ?_
          unfold Engine.markAwaiting
          rw [hf.shape, firstAsync?_eq (.call hblock h)]
          split
          · exact .awaiting _ hf
          · exact hf

end Expr.Lowered

/-! ### Templates -/

/-- Two templates run alike where upward reads of plain paths lead where the reads of the context
do. -/
structure Template.AlikeHere (engine : Engine) (plain : String → Prop) (T T' : Template) :
    Prop where
  mode : T.mode = T'.mode
  run : ∀ depth mode s, s.ReadsHere plain →
    engine.runTemplate depth mode T.body s = engine.runTemplate depth mode T'.body s

variable {engine : Engine} {plain : String → Prop}

/-- Templates that run alike at their root render alike. -/
theorem Template.AlikeHere.render_eq {T T' : Template} (h : T.AlikeHere engine plain T')
    {data : Value} (hdata : ∀ v, v.Alike .bare data → (Scope.root v).ReadsHere plain)
    (depth : Nat) : T.render engine depth data = T'.render engine depth data := by
  funext E
  have hroot : (Scope.root (data.marked E.run E.made).1).ReadsHere plain :=
    hdata _ (Value.unmarked_marked E.run data E.made)
  simp only [render, EvalM.bind_apply, EvalM.settle, h.mode, h.run depth _ _ hroot]

/-- What an expression is built into runs like what it is lowered to. -/
theorem Expr.Lowered.buildTemplate_matches {e e' : Expr} (h : Lowered engine.operations plain e e')
    (depth : Nat) (strategy : Strategy) :
    exact.Matches (Template.AlikeHere engine plain) (engine.buildTemplate depth strategy e)
      (engine.buildTemplate depth strategy e') := by
  obtain ⟨_ | _, mode⟩ := strategy
  · have hcheck : engine.checkWalk mode e = engine.checkWalk mode e' := by
      have hunknown : e.firstUnknown? engine.operations = e'.firstUnknown? engine.operations :=
        firstOperation?_eq rfl e e' h
      cases mode <;> simp only [Engine.checkWalk, h.firstAsync?_eq, hunknown]
    have hsync : e.isSync engine.operations = e'.isSync engine.operations := by
      unfold isSync
      rw [firstOperation?_eq rfl e e' h]
    simp only [Engine.buildTemplate, Bool.false_eq_true, if_false, hcheck]
    refine (Matches.exact_refl _).bind fun _ _ _ => .pure ⟨rfl, fun depth mode s hs => ?_⟩
    cases depth with
    | zero => rfl
    | succ depth =>
      simp only [Engine.interpretedBody, Engine.runTemplate, hsync]
      exact eval_eq _ hs e e' h
  · simp only [Engine.buildTemplate, if_true]
    refine (build_matches depth e e' h).bind fun f f' hf => ?_
    have hsupports : f.supportsSync = f'.supportsSync := by
      unfold Fragment.supportsSync
      rw [hf.shape]
    have hcheck : Engine.checkFragment mode f = Engine.checkFragment mode f' := by
      unfold Engine.checkFragment
      rw [hsupports, hf.awaited?]
    rw [hcheck]
    refine (Matches.exact_refl _).bind fun _ _ _ => .pure ⟨rfl, fun depth mode s hs => ?_⟩
    cases depth with
    | zero => rfl
    | succ depth => exact hf.eval _ s hs

/-- Whatever is done between, an expression and what it is lowered to render alike. -/
theorem Expr.Lowered.compile_render {e e' : Expr} (h : Lowered engine.operations plain e e')
    {data : Value} (hdata : ∀ v, v.Alike .bare data → (Scope.root v).ReadsHere plain)
    (depth depth' : Nat) (strategy : Strategy) (between : EvalM Unit) :
    (do
      let T ← engine.buildTemplate depth strategy e
      between
      T.render engine depth' data) =
    (do
      let T ← engine.buildTemplate depth strategy e'
      between
      T.render engine depth' data) := by
  refine Matches.eq (Q := Eq) (fun _ _ => id) ?_
  refine (h.buildTemplate_matches depth strategy).bind fun T T' hT => ?_
  rw [hT.render_eq hdata]
  exact Matches.exact_refl _

end Stencil
