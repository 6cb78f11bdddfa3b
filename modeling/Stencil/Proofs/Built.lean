import Stencil.Proofs.Walk

/-!
# Fragments in layers

A fragment leaves frames behind only where they are looked at, evaluates short loops at once and
awaits nothing inside of a part that is never awaited. None of this shows: a fragment that does not
touch the frames around it is evaluated alike whatever they are, one that is never awaited is
evaluated alike in both modes, and so every fragment is evaluated layer by layer, as if each block
left a frame behind.

## Main results

* `Fragment.eval_of_untouched`: frames that are not looked at make no difference.
* `Fragment.eval_eq_run`: a fragment is evaluated layer by layer.
* `Fragment.sizeOf_lt`: the parts of the layer of a fragment are smaller than the fragment.
-/

namespace Stencil

open Simulation (Matches exact)

namespace Fragment

/-! ### Parts -/

/-- The fragments that a fragment is made of. The body of a definition is not among them. -/
def parts : Fragment → List Fragment
  | const _ | path _ | lookup _ | position _ => []
  | form _ ps => ps
  | loop _ _ selector body branch => [selector, body, branch]
  | context _ named value body => named.map Prod.snd ++ value.toList ++ [body]
  | template name named => name :: named.map Prod.snd
  | define name _ _ => [name]
  | method _ args => args.map Prod.snd
  | awaiting _ inner => [inner]

/-- The members of a named list are smaller than the list. -/
theorem sizeOf_lt_of_mem_map_snd {κ : Type} [SizeOf κ] {g : Fragment}
    {named : List (κ × Fragment)} (h : g ∈ named.map Prod.snd) : sizeOf g < sizeOf named := by
  obtain ⟨⟨key, g⟩, hentry, rfl⟩ := List.mem_map.mp h
  have hlt := List.sizeOf_lt_of_mem hentry
  simp only [Prod.mk.sizeOf_spec] at hlt
  show sizeOf g < _
  omega

/-- The parts of a fragment are smaller than the fragment. -/
theorem sizeOf_lt_of_mem_parts {f g : Fragment} (h : g ∈ f.parts) : sizeOf g < sizeOf f := by
  cases f with
  | const | path | lookup | position => exact absurd h List.not_mem_nil
  | form f ps =>
    have hlt : sizeOf g < sizeOf ps := List.sizeOf_lt_of_mem h
    simp only [form.sizeOf_spec]
    omega
  | loop kind params selector body branch =>
    simp only [parts, List.mem_cons, List.not_mem_nil, or_false] at h
    simp only [loop.sizeOf_spec]
    rcases h with rfl | rfl | rfl <;> omega
  | context params named value body =>
    simp only [parts, List.mem_append, List.mem_singleton, Option.mem_toList] at h
    simp only [context.sizeOf_spec]
    rcases h with (h | h) | rfl
    · have hlt := sizeOf_lt_of_mem_map_snd h
      omega
    · obtain rfl := Option.mem_def.mp h
      simp only [Option.some.sizeOf_spec]
      omega
    · omega
  | template name named =>
    simp only [template.sizeOf_spec]
    rcases List.mem_cons.mp h with rfl | h
    · omega
    · have hlt := sizeOf_lt_of_mem_map_snd h
      omega
  | define name body traits =>
    obtain rfl := List.mem_singleton.mp h
    simp only [define.sizeOf_spec]
    omega
  | method m args =>
    have hlt : sizeOf g < sizeOf args := sizeOf_lt_of_mem_map_snd h
    simp only [method.sizeOf_spec]
    omega
  | awaiting operation inner =>
    obtain rfl := List.mem_singleton.mp h
    simp only [awaiting.sizeOf_spec]
    omega

/-- What holds of a fragment as soon as it holds of its parts holds of all fragments. -/
theorem induction {P : Fragment → Prop} (step : ∀ f, (∀ g ∈ f.parts, P g) → P f) :
    ∀ f, P f := fun f =>
  (measure (sizeOf : Fragment → Nat)).wf.induction f fun f ih =>
    step f fun g hg => ih g (sizeOf_lt_of_mem_parts hg)

/-! ### The parts of a list -/

/-- The evaluations of fragments are those of each. -/
theorem evals_eq_map (setup : FragmentRun) (fs : List Fragment) :
    evals setup fs = fs.map (eval setup) := by
  induction fs with
  | nil => rfl
  | cons f fs ih => rw [evals, ih, List.map_cons]

/-- The evaluations of named fragments are those of each. -/
theorem evalNameds_eq_mapValues (setup : FragmentRun) (fs : List (String × Fragment)) :
    evalNameds setup fs = Keyed.mapValues (eval setup) fs := by
  induction fs with
  | nil => rfl
  | cons f fs ih => rw [evalNameds, ih, Keyed.mapValues_cons]

/-- The evaluations of arguments are those of each. -/
theorem evalArgs_eq_mapValues (setup : FragmentRun) (fs : List (Option String × Fragment)) :
    evalArgs setup fs = Keyed.mapValues (eval setup) fs := by
  induction fs with
  | nil => rfl
  | cons f fs ih => rw [evalArgs, ih, Keyed.mapValues_cons]

/-- A form is evaluated by its operation. -/
theorem eval_form (setup : FragmentRun) (f : Form) (ps : List Fragment) :
    eval setup (.form f ps) = f.eval (ps.map (eval (setup.within (.form f ps)))) := by
  rw [← evals_eq_map]
  rfl

/-- A loop is evaluated as a loop, with frames only where its body touches them. -/
theorem eval_loop (setup : FragmentRun) (kind : LoopKind) (params : List String)
    (selector body branch : Fragment) : ∃ atOnce,
    eval setup (.loop kind params selector body branch) =
      LoopStyle.eval { kind, params, framed := body.touchesFrames, atOnce }
        (eval (setup.within (.loop kind params selector body branch)) selector)
        (eval (setup.within (.loop kind params selector body branch)) body)
        (eval (setup.within (.loop kind params selector body branch)) branch) :=
  ⟨_, rfl⟩

/-- A block with a context leaves a frame only where its body touches frames. -/
theorem eval_context (setup : FragmentRun) (params : List String)
    (named : List (String × Fragment)) (value : Option Fragment) (body : Fragment) :
    eval setup (.context params named value body) =
      evalContext params body.touchesFrames
        (Keyed.mapValues (eval (setup.within (.context params named value body))) named)
        (value.map (eval (setup.within (.context params named value body))))
        (eval (setup.within (.context params named value body)) body) := by
  rw [← evalNameds_eq_mapValues]
  cases value <;> rfl

/-- A call evaluates its name and its named values. -/
theorem eval_template (setup : FragmentRun) (name : Fragment) (named : List (String × Fragment)) :
    eval setup (.template name named) =
      evalTemplate ((setup.within (.template name named)).run
          (setup.within (.template name named)).mode)
        (eval (setup.within (.template name named)) name)
        (Keyed.mapValues (eval (setup.within (.template name named))) named) := by
  rw [← evalNameds_eq_mapValues]
  rfl

/-- A method is refused where it would have to be awaited, and called otherwise. -/
theorem eval_method (setup : FragmentRun) (m : Method) (args : List (Option String × Fragment))
    (s : Scope) :
    eval setup (.method m args) s =
      if m.isAsync ∧ (setup.within (.method m args)).mode = .sync then
        throw (.awaitRequired m.name)
      else
        evalBuiltArguments (Keyed.mapValues (eval (setup.within (.method m args))) args) {} s >>=
          m.call := by
  rw [← evalArgs_eq_mapValues]
  rfl

/-- Fragments touch frames when one of them does. -/
theorem touchesAny_eq_any (fs : List Fragment) : touchesAny fs = fs.any touchesFrames := by
  induction fs with
  | nil => rfl
  | cons f fs ih => rw [touchesAny, ih, List.any_cons]

/-- Named fragments touch frames when one of them does. -/
theorem touchesNamed_eq_any (fs : List (String × Fragment)) :
    touchesNamed fs = (fs.map Prod.snd).any touchesFrames := by
  induction fs with
  | nil => rfl
  | cons f fs ih => rw [touchesNamed, ih, List.map_cons, List.any_cons]

/-- Arguments touch frames when one of them does. -/
theorem touchesArgs_eq_any (fs : List (Option String × Fragment)) :
    touchesArgs fs = (fs.map Prod.snd).any touchesFrames := by
  induction fs with
  | nil => rfl
  | cons f fs ih => rw [touchesArgs, ih, List.map_cons, List.any_cons]

/-- Where no fragment touches frames, each of them does not. -/
theorem untouched_of_mem {fs : List Fragment} (h : fs.any touchesFrames = false) {g : Fragment}
    (hg : g ∈ fs) : g.touchesFrames = false :=
  Bool.of_not_eq_true (List.any_eq_false.mp h g hg)

/-- What does not touch the frames around it has no part that does. -/
theorem untouched_parts {f g : Fragment} (h : f.touchesFrames = false) (hg : g ∈ f.parts) :
    g.touchesFrames = false := by
  cases f with
  | const | path | lookup | position => exact absurd hg List.not_mem_nil
  | form f ps =>
    rw [touchesFrames, touchesAny_eq_any] at h
    exact untouched_of_mem h hg
  | loop kind params selector body branch =>
    simp only [touchesFrames, Bool.or_eq_false_iff] at h
    simp only [parts, List.mem_cons, List.not_mem_nil, or_false] at hg
    rcases hg with rfl | rfl | rfl
    · exact h.1.1
    · exact h.1.2
    · exact h.2
  | context params named value body =>
    unfold touchesFrames at h
    simp only [touchesNamed_eq_any, Bool.or_eq_false_iff] at h
    simp only [parts, List.mem_append, List.mem_singleton, Option.mem_toList] at hg
    rcases hg with (hg | hg) | rfl
    · exact untouched_of_mem h.1.1 hg
    · obtain rfl := Option.mem_def.mp hg
      exact h.1.2
    · exact h.2
  | template name named => exact Bool.noConfusion h
  | define name body traits =>
    obtain rfl := List.mem_singleton.mp hg
    exact h
  | method m args =>
    rw [touchesFrames, touchesArgs_eq_any] at h
    exact untouched_of_mem h hg
  | awaiting operation inner =>
    obtain rfl := List.mem_singleton.mp hg
    exact h

/-! ### Frames that are not looked at -/

/-- Two scopes differ in their frames at most. -/
def SameGround (s t : Scope) : Prop :=
  s.context = t.context ∧ s.position = t.position

/-- Fragments match when each of them does. -/
theorem forall₂_paired {α : Type} {sim : Simulation} {s t : Scope} {m n : α → Lazy} {fs : List α}
    (h : ∀ g ∈ fs, sim.Paired s t (m g) (n g)) :
    List.Forall₂ (sim.Paired s t) (fs.map m) (fs.map n) := by
  rw [List.forall₂_map_left_iff, List.forall₂_map_right_iff, List.forall₂_same]
  exact h

/-- Named fragments match when each of them does. -/
theorem forall₂_namedPaired {α κ : Type} {sim : Simulation} {s t : Scope} {m n : α → Lazy}
    {fs : List (κ × α)} (h : ∀ g ∈ fs.map Prod.snd, sim.Paired s t (m g) (n g)) :
    List.Forall₂ (sim.NamedPaired s t) (Keyed.mapValues m fs) (Keyed.mapValues n fs) := by
  unfold Keyed.mapValues
  rw [List.forall₂_map_left_iff, List.forall₂_map_right_iff, List.forall₂_same]
  exact fun f hf => ⟨rfl, h f.2 (List.mem_map_of_mem hf)⟩

/-- Evaluations that are equal match exactly. -/
theorem exact_paired {m n : Lazy} {s t : Scope} (h : m s = n t) : exact.Paired s t m n := by
  unfold Simulation.Paired
  rw [h]
  exact (Matches.exact_refl _).mono fun _ _ => congrArg _

/-- Evaluations that match exactly are equal. -/
theorem eq_of_exact_paired {m n : Lazy} {s t : Scope} (h : exact.Paired s t m n) : m s = n t :=
  Matches.eq (fun _ _ => Value.alike_full.mp) h

/-- Frames that are not looked at make no difference. -/
theorem eval_of_untouched (f : Fragment) : ∀ (setup : FragmentRun) {s t : Scope},
    f.touchesFrames = false → SameGround s t → eval setup f s = eval setup f t := by
  induction f using induction with
  | step f ih =>
    intro setup s t htouch hground
    -- The parts do not look at frames either, and are evaluated with some setup.
    have hparts : ∀ (setup : FragmentRun) g, g ∈ f.parts → ∀ {s t : Scope}, SameGround s t →
        exact.Paired s t (eval setup g) (eval setup g) := fun setup g hg _ _ h =>
      exact_paired (ih g hg setup (untouched_parts htouch hg) h)
    refine eq_of_exact_paired ?_
    cases f with
    | const v => exact exact_paired rfl
    | path p => exact exact_paired (congrArg (fun v => pure (p.resolve v)) hground.1)
    | lookup p => exact Bool.noConfusion htouch
    | position r => exact exact_paired (congrArg (fun p => pure (r.read p)) hground.2)
    | form f ps =>
      rw [eval_form]
      exact f.matches_eval (forall₂_paired fun g hg => hparts _ g hg hground)
    | loop kind params selector body branch =>
      have hbody : body.touchesFrames = false := untouched_parts htouch (by simp [parts])
      unfold eval
      refine LoopStyle.matches_eval rfl (hparts _ _ (by simp [parts]) hground) ?_ ?_
        (hparts _ _ (by simp [parts]) hground)
      · intro item _ hitem
        obtain rfl := itemAlike_full.mp hitem
        refine hparts _ _ (by simp [parts]) ?_
        simp only [LoopStyle.round, hbody]
        exact ⟨rfl, rfl⟩
      · intro _ v w _ _ _ _ hv hrel _
        obtain rfl := Value.alike_full.mp hv
        exact matches_wholeValue rfl (fun _ => hparts _ _ (by simp [parts]) hground)
          (hparts _ _ (by simp [parts]) ⟨rfl, rfl⟩) hrel
    | context params named value body =>
      rw [eval_context]
      refine matches_evalContext (forall₂_namedPaired fun g hg => hparts _ g ?_ hground) ?_ ?_
      · exact List.mem_append_left _ (List.mem_append_left _ hg)
      · cases value with
        | none => exact .none
        | some value => exact .some (hparts _ _ (by simp [parts]) hground)
      · intro replaces v w hv
        obtain rfl := Value.alike_full.mp hv
        refine hparts _ _ (by simp [parts]) ?_
        unfold contextScope
        split
        · exact ⟨rfl, rfl⟩
        · exact ⟨rfl, rfl⟩
    | template name named => exact Bool.noConfusion htouch
    | define name body traits =>
      unfold eval
      refine matches_evalDefinition (hparts _ _ (by simp [parts]) hground) ?_
      rintro E F rfl key
      exact rfl
    | method m args =>
      unfold Simulation.Paired
      rw [eval_method, eval_method]
      split
      · exact .throw _
      · have hargs : exact.Matches (Arguments.Alike .full)
            (evalBuiltArguments (Keyed.mapValues (eval (setup.within (.method m args))) args) {} s)
            (evalBuiltArguments (Keyed.mapValues (eval (setup.within (.method m args)))
              args) {} t) :=
          matches_evalBuiltArguments (forall₂_namedPaired fun g hg => hparts _ g hg hground) rfl
        rw [hargs.eq fun _ _ => Arguments.alike_full.mp]
        exact (Matches.exact_refl _).mono fun _ _ => congrArg _
    | awaiting operation inner =>
      unfold eval
      unfold Simulation.Paired
      cases setup.mode with
      | sync => exact .throw _
      | awaited => exact hparts _ _ (by simp [parts]) hground

/-! ### Parts that are never awaited -/

/-- A fragment is never awaited when it stays within the least shape. -/
theorem isSync_iff {f : Fragment} : f.isSync = true ↔ f.shape ≤ .sync := by
  unfold isSync
  cases f.shape <;> decide

/-- Fragments stay within a shape when each of them does. -/
theorem shapeAll_le {fs : List Fragment} {shape : Shape} :
    shapeAll fs ≤ shape ↔ ∀ f ∈ fs, f.shape ≤ shape := by
  induction fs with
  | nil => cases shape <;> simp [shapeAll] <;> decide
  | cons f fs ih => rw [shapeAll, Shape.max_le_iff, ih, List.forall_mem_cons]

/-- The shape of named fragments does not depend on the names. -/
theorem shapeNamed_eq_shapeAll (fs : List (String × Fragment)) :
    shapeNamed fs = shapeAll (fs.map Prod.snd) := by
  induction fs with
  | nil => rfl
  | cons f fs ih => rw [shapeNamed, ih, List.map_cons, shapeAll]

/-- The shape of arguments does not depend on their names. -/
theorem shapeArgs_eq_shapeAll (fs : List (Option String × Fragment)) :
    shapeArgs fs = shapeAll (fs.map Prod.snd) := by
  induction fs with
  | nil => rfl
  | cons f fs ih => rw [shapeArgs, ih, List.map_cons, shapeAll]

/-- A part has to be awaited no more than its fragment. -/
theorem shape_le_of_mem_parts {f g : Fragment} (hg : g ∈ f.parts) {shape : Shape}
    (h : f.shape ≤ shape) : g.shape ≤ shape := by
  cases f with
  | const | path | lookup | position => exact absurd hg List.not_mem_nil
  | form f ps => exact shapeAll_le.mp h g hg
  | loop kind params selector body branch =>
    simp only [Fragment.shape, Shape.max_le_iff] at h
    simp only [parts, List.mem_cons, List.not_mem_nil, or_false] at hg
    rcases hg with rfl | rfl | rfl
    · exact h.1.1
    · exact h.1.2
    · exact h.2
  | context params named value body =>
    unfold Fragment.shape at h
    simp only [shapeNamed_eq_shapeAll, Shape.max_le_iff, shapeAll_le] at h
    simp only [parts, List.mem_append, List.mem_singleton, Option.mem_toList] at hg
    rcases hg with (hg | hg) | rfl
    · exact h.1.1 g hg
    · obtain rfl := Option.mem_def.mp hg
      exact h.1.2
    · exact h.2
  | template name named =>
    simp only [Fragment.shape, shapeNamed_eq_shapeAll, Shape.max_le_iff, shapeAll_le] at h
    rcases List.mem_cons.mp hg with rfl | hg
    · exact h.1.1
    · exact h.1.2 g hg
  | define name body traits =>
    obtain rfl := List.mem_singleton.mp hg
    exact h
  | method m args =>
    unfold Fragment.shape at h
    split at h
    · cases shape
      · exact absurd h (by decide)
      · exact absurd h (by decide)
      · cases g.shape <;> decide
    · rw [shapeArgs_eq_shapeAll] at h
      exact shapeAll_le.mp h g hg
  | awaiting operation inner =>
    cases shape
    · exact absurd (show Shape.async ≤ .sync from h) (by decide)
    · exact absurd (show Shape.async ≤ .dual from h) (by decide)
    · cases g.shape <;> decide

/-- A fragment that is never awaited is evaluated alike in both modes. -/
theorem eval_of_isSync (setup : FragmentRun) {f : Fragment} (h : f.isSync = true) :
    eval { setup with mode := .sync } f = eval setup f := by
  have hwithin : FragmentRun.within { setup with mode := .sync } f = setup.within f := by
    simp only [FragmentRun.within, h]
    rfl
  cases f with
  | const | path | lookup | position => rfl
  | form => simp only [eval_form, hwithin]
  | loop => simp only [eval, hwithin]
  | context => simp only [eval_context, hwithin]
  | template => simp only [eval_template, hwithin]
  | define => simp only [eval, hwithin]
  | method =>
    funext s
    simp only [eval_method, hwithin]
  | awaiting => exact absurd h (by simp [isSync, Fragment.shape])

/-- Inside of a fragment its parts are evaluated as elsewhere. -/
theorem eval_within (setup : FragmentRun) {f g : Fragment} (hg : g ∈ f.parts) :
    eval (setup.within f) g = eval setup g := by
  unfold FragmentRun.within
  split
  · next h =>
    exact eval_of_isSync setup (isSync_iff.mpr (shape_le_of_mem_parts hg (isSync_iff.mp h)))
  · rfl

/-! ### Layers of fragments -/

/-- The layer of a fragment. -/
def layer (mode : Mode) : Fragment → Layer Fragment
  | const v => .value v
  | path p => .path p
  | lookup p => .lookup p
  | position r => .position r
  | form f ps => .form f ps
  | loop kind params selector body branch => .loop kind params selector body branch
  | context params named value body => .context params named value body
  | template name named => .template name named
  | define name body traits => .define name fun _ key => TemplateEntry.defined key body traits
  | method m args =>
    if m.isAsync ∧ mode = .sync then .refused (.awaitRequired m.name) else .method m args
  | awaiting operation inner =>
    match mode with
    | .sync => .refused (.awaitRequired operation)
    | .awaited => layer mode inner

/-- A body that does not look at frames runs alike in a loop that leaves none. -/
theorem loop_framed (setup : FragmentRun) (kind : LoopKind) (params : List String)
    (selector branch : Lazy) (body : Fragment) (atOnce : Bool) :
    LoopStyle.eval { kind, params, framed := body.touchesFrames, atOnce } selector
        (eval setup body) branch =
      LoopStyle.eval { kind, params, framed := true, atOnce := false } selector
        (eval setup body) branch := by
  funext s
  refine eq_of_exact_paired (LoopStyle.matches_eval rfl (exact_paired rfl) ?_ ?_
    (exact_paired rfl))
  · intro item _ hitem
    obtain rfl := itemAlike_full.mp hitem
    cases hbody : body.touchesFrames with
    | true => exact exact_paired rfl
    | false => exact exact_paired (eval_of_untouched body setup hbody ⟨rfl, rfl⟩)
  · intro _ v w _ _ _ _ hv hrel _
    obtain rfl := Value.alike_full.mp hv
    exact matches_wholeValue rfl (fun _ => exact_paired rfl) (exact_paired rfl) hrel

/-- A body that does not look at frames is evaluated alike in a block that leaves none. -/
theorem context_framed (setup : FragmentRun) (params : List String)
    (named : List (String × Lazy)) (value : Option Lazy) (body : Fragment) :
    evalContext params body.touchesFrames named value (eval setup body) =
      evalContext params true named value (eval setup body) := by
  funext s
  refine eq_of_exact_paired (matches_evalContext ?_ ?_ ?_)
  · exact List.forall₂_same.mpr fun _ _ => ⟨rfl, exact_paired rfl⟩
  · cases value with
    | none => exact .none
    | some value => exact .some (exact_paired rfl)
  · intro replaces v w hv
    obtain rfl := Value.alike_full.mp hv
    cases hbody : body.touchesFrames with
    | true => exact exact_paired rfl
    | false =>
      refine exact_paired (eval_of_untouched body setup hbody ?_)
      unfold contextScope
      split <;> split <;> exact ⟨rfl, rfl⟩

/-- Named fragments are treated alike when each of them is. -/
theorem mapValues_congr {κ : Type} {fs : List (κ × Fragment)} {m n : Fragment → Lazy}
    (h : ∀ g ∈ fs.map Prod.snd, m g = n g) : Keyed.mapValues m fs = Keyed.mapValues n fs :=
  List.map_congr_left fun f hf => by rw [h f.2 (List.mem_map_of_mem hf)]

/-- A fragment is evaluated layer by layer. -/
theorem eval_eq_run (setup : FragmentRun) : ∀ f : Fragment,
    eval setup f = (f.layer setup.mode).run (setup.run setup.mode) (eval setup)
  | const _ | path _ | lookup _ | position _ => rfl
  | form f ps => by
    have hps : ps.map (eval (setup.within (.form f ps))) = ps.map (eval setup) :=
      List.map_congr_left fun g hg => eval_within setup hg
    rw [eval_form, hps]
    rfl
  | loop kind params selector body branch => by
    obtain ⟨atOnce, heval⟩ := eval_loop setup kind params selector body branch
    rw [heval, eval_within setup (by simp [parts]), eval_within setup (by simp [parts]),
      eval_within setup (by simp [parts]), loop_framed]
    rfl
  | context params named value body => by
    have hnamed : Keyed.mapValues (eval (setup.within (.context params named value body))) named =
        Keyed.mapValues (eval setup) named :=
      mapValues_congr fun g hg =>
        eval_within setup (List.mem_append_left _ (List.mem_append_left _ hg))
    have hvalue : value.map (eval (setup.within (.context params named value body))) =
        value.map (eval setup) := by
      cases value with
      | none => rfl
      | some value => exact congrArg some (eval_within setup (by simp [parts]))
    rw [eval_context, hnamed, hvalue, eval_within setup (by simp [parts]), context_framed]
    rfl
  | template name named => by
    have hwithin : setup.within (.template name named) = setup := if_neg fun h =>
      absurd (Shape.max_le_iff.mp (isSync_iff.mp h)).2 (by decide)
    rw [eval_template, hwithin]
    rfl
  | define name body traits => by
    unfold eval
    rw [eval_within setup (by simp [parts])]
    rfl
  | method m args => by
    have hargs : Keyed.mapValues (eval (setup.within (.method m args))) args =
        Keyed.mapValues (eval setup) args := mapValues_congr fun g hg => eval_within setup hg
    funext s
    rw [eval_method, hargs]
    unfold layer
    cases hm : m.isAsync with
    | false =>
      simp only [Bool.false_eq_true, false_and, if_false]
      rfl
    | true =>
      have hwithin : setup.within (.method m args) = setup := if_neg fun h => by
        simp [isSync, Fragment.shape, hm] at h
      rw [hwithin]
      by_cases hmode : setup.mode = .sync
      · rw [if_pos ⟨rfl, hmode⟩, if_pos ⟨rfl, hmode⟩]
        rfl
      · rw [if_neg fun h => hmode h.2, if_neg fun h => hmode h.2]
        rfl
  | awaiting operation inner => by
    unfold eval layer
    cases hmode : setup.mode with
    | sync => rfl
    | awaited =>
      have h := eval_eq_run setup inner
      rw [hmode] at h
      exact h

/-- The parts of the layer of a fragment are smaller than the fragment. -/
theorem sizeOf_lt {mode : Mode} : ∀ {f g : Fragment}, g ∈ (f.layer mode).parts → sizeOf g < sizeOf f
  | const _, _, h | path _, _, h | lookup _, _, h | position _, _, h => absurd h List.not_mem_nil
  | form _ _, _, h | loop .., _, h | context .., _, h | template .., _, h | define .., _, h =>
    sizeOf_lt_of_mem_parts h
  | method m args, g, h => by
    unfold layer at h
    split at h
    · exact absurd h List.not_mem_nil
    · exact sizeOf_lt_of_mem_parts h
  | awaiting operation inner, g, h => by
    cases mode with
    | sync => exact absurd h List.not_mem_nil
    | awaited =>
      have hinner : sizeOf inner < sizeOf (awaiting operation inner) :=
        sizeOf_lt_of_mem_parts (List.mem_singleton.mpr rfl)
      exact Nat.lt_trans (sizeOf_lt (f := inner) h) hinner

/-! ### What follows from the layer -/

/-- A definition makes the entry of a body that has been built. -/
theorem exists_define {mode : Mode} : ∀ {f name : Fragment} {entry : EntryMaker},
    f.layer mode = .define name entry →
      ∃ body traits, entry = fun _ key => TemplateEntry.defined key body traits
  | const _, _, _, h | path _, _, _, h | lookup _, _, _, h | position _, _, _, h
  | form _ _, _, _, h | loop .., _, _, h | context .., _, _, h | template .., _, _, h => by cases h
  | define _ body traits, _, _, h => by
    cases h
    exact ⟨body, traits, rfl⟩
  | method _ _, _, _, h => by
    unfold layer at h
    split at h <;> cases h
  | awaiting operation inner, _, _, h => by
    cases mode with
    | sync => cases h
    | awaited => exact exists_define (f := inner) h

/-- A fragment stays within a shape when its parts do, and when the shape leaves room for a template
that it calls and for a method that has to be awaited. -/
theorem shape_le {f : Fragment} {shape : Shape} (hawaited : f.awaited? = none)
    (hparts : ∀ g ∈ (f.layer .awaited).parts, g.shape ≤ shape)
    (htemplate : ∀ name named, f.layer .awaited = .template name named → .dual ≤ shape)
    (hmethod : ∀ m args, f.layer .awaited = .method m args → m.isAsync = true → .async ≤ shape) :
    f.shape ≤ shape := by
  cases f with
  | const | path | lookup | position => exact shape.sync_le
  | form f ps => exact shapeAll_le.mpr hparts
  | loop kind params selector body branch =>
    simp only [Fragment.shape, Shape.max_le_iff]
    exact ⟨⟨hparts _ (by simp [layer, Layer.parts]), hparts _ (by simp [layer, Layer.parts])⟩,
      hparts _ (by simp [layer, Layer.parts])⟩
  | context params named value body =>
    unfold Fragment.shape
    simp only [shapeNamed_eq_shapeAll, Shape.max_le_iff, shapeAll_le]
    refine ⟨⟨fun g hg => hparts g ?_, ?_⟩, hparts _ (by simp [layer, Layer.parts])⟩
    · exact List.mem_append_left _ (List.mem_append_left _ hg)
    · cases value with
      | none => exact shape.sync_le
      | some value => exact hparts _ (by simp [layer, Layer.parts])
  | template name named =>
    simp only [Fragment.shape, shapeNamed_eq_shapeAll, Shape.max_le_iff, shapeAll_le]
    exact ⟨⟨hparts _ List.mem_cons_self, fun g hg => hparts g (List.mem_cons_of_mem _ hg)⟩,
      htemplate name named rfl⟩
  | define name body traits => exact hparts name (List.mem_singleton.mpr rfl)
  | method m args =>
    have hlayer : (method m args).layer .awaited = .method m args := if_neg (by simp)
    rw [hlayer] at hparts
    unfold Fragment.shape
    split
    · next hm => exact hmethod m args hlayer hm
    · rw [shapeArgs_eq_shapeAll]
      exact shapeAll_le.mpr hparts
  | awaiting operation inner => cases hawaited

/-- A fragment can be tried without awaiting it when its parts can and its method is none that has
to be awaited. -/
theorem shape_le_dual {f : Fragment} (hawaited : f.awaited? = none)
    (hparts : ∀ g ∈ (f.layer .awaited).parts, g.shape ≤ .dual)
    (hmethod : ∀ m args, f.layer .awaited = .method m args → m.isAsync = false) :
    f.shape ≤ .dual := by
  refine shape_le hawaited hparts (fun _ _ _ => by decide) fun m args hl hm => ?_
  rw [hmethod m args hl] at hm
  cases hm

/-- A fragment does not touch the frames around it when its parts do not and it is no upward read
and no call of a template. -/
theorem untouched {f : Fragment} (hawaited : f.awaited? = none)
    (hparts : ∀ g ∈ (f.layer .awaited).parts, g.touchesFrames = false)
    (hlookup : ∀ p, f.layer .awaited ≠ .lookup p)
    (htemplate : ∀ name named, f.layer .awaited ≠ .template name named) :
    f.touchesFrames = false := by
  have hany : ∀ {fs : List Fragment}, (∀ g ∈ fs, g.touchesFrames = false) →
      fs.any touchesFrames = false := fun h =>
    List.any_eq_false.mpr fun g hg => by simp [h g hg]
  cases f with
  | const | path | position => rfl
  | lookup p => exact absurd rfl (hlookup p)
  | form f ps =>
    rw [touchesFrames, touchesAny_eq_any]
    exact hany hparts
  | loop kind params selector body branch =>
    simp only [touchesFrames, Bool.or_eq_false_iff]
    exact ⟨⟨hparts _ (by simp [layer, Layer.parts]), hparts _ (by simp [layer, Layer.parts])⟩,
      hparts _ (by simp [layer, Layer.parts])⟩
  | context params named value body =>
    unfold touchesFrames
    simp only [touchesNamed_eq_any, Bool.or_eq_false_iff]
    refine ⟨⟨hany fun g hg => hparts g ?_, ?_⟩, hparts _ (by simp [layer, Layer.parts])⟩
    · exact List.mem_append_left _ (List.mem_append_left _ hg)
    · cases value with
      | none => rfl
      | some value => exact hparts _ (by simp [layer, Layer.parts])
  | template name named => exact absurd rfl (htemplate name named)
  | define name body traits => exact hparts name (List.mem_singleton.mpr rfl)
  | method m args =>
    have hlayer : (method m args).layer .awaited = .method m args := if_neg (by simp)
    rw [hlayer] at hparts
    rw [touchesFrames, touchesArgs_eq_any]
    exact hany hparts
  | awaiting operation inner => cases hawaited

end Fragment

end Stencil
