import Stencil.Proofs.Building
import Stencil.Proofs.Determinism

/-!
# Watched methods

A method is given containers together with what tells them from others that hold the same, and its
answer may hang on that: whether two containers that hold no number are equal depends on whether
they are one container. To watch a method is to let it refuse arguments of which this is so. A
watched engine runs as the engine itself does until a method refuses.

## Main results

* `Method.watched_same`: a watched method refuses, or answers the same to arguments that look alike.
* `Expr.layer_watched`: an expression has the layers on a watched engine that it has on the engine.
* `Code.layer_watched`: so has code, as soon as the methods that its fragments hold are watched.
-/

namespace Stencil

/-- The answer to the arguments does not hang on the marks of their containers. -/
def Method.Blind (m : Method) (args : Arguments) : Prop :=
  ∀ args', args.Alike .bare args' → (m.run args).Same .bare (m.run args')

open Classical in
/-- The method that refuses arguments when the answer hangs on the marks of their containers. -/
noncomputable def Method.watched (refusal : Error) (m : Method) : Method :=
  { m with run := fun args =>
      if m.Blind args then m.run args else { outcome := .error refusal } }

/-- The operation with its method watched. -/
noncomputable def Operation.watched (refusal : Error) : Operation → Operation
  | .method m => .method (m.watched refusal)
  | op => op

/-- The engine with all of its methods watched. -/
noncomputable def Engine.watched (engine : Engine) (refusal : Error) : Engine :=
  { engine with operations := Keyed.mapValues (Operation.watched refusal) engine.operations }

/-- A watched method refuses, or answers the same to arguments that look alike. -/
theorem Method.watched_same (refusal : Error) (m : Method) {args args' : Arguments}
    (h : args.Alike .bare args') :
    ((m.watched refusal).run args).outcome = .error refusal ∨
      ((m.watched refusal).run args).Same .bare (m.run args') := by
  simp only [watched]
  split
  · next hblind => exact .inr (hblind args' h)
  · exact .inl rfl

/-- A watched method logs nothing when the method does not. -/
theorem Method.watched_log (refusal : Error) {m : Method} (hm : ∀ args, (m.run args).log = [])
    (args : Arguments) : ((m.watched refusal).run args).log = [] := by
  simp only [watched]
  split
  · exact hm args
  · rfl

namespace Engine

variable (engine : Engine) (refusal : Error)

/-- The methods of the engine never have to be awaited. -/
def MethodsSync : Prop :=
  ∀ name m, Keyed.find? name engine.operations = some (.method m) → m.isAsync = false

/-- The deterministic methods of the engine log nothing. -/
def MethodsQuiet : Prop :=
  ∀ m, engine.operations.Deterministic m → ∀ args, (m.run args).log = []

/-- What is found among watched operations is what is found, watched. -/
theorem find?_watched (name : String) :
    Keyed.find? name (engine.watched refusal).operations =
      (Keyed.find? name engine.operations).map (Operation.watched refusal) :=
  Keyed.find?_mapValues _ name _

end Engine

/-! ### What is known of expressions -/

namespace Expr

variable {engine : Engine} {refusal : Error}

/-- Watching methods does not change which operations are found. -/
theorem firstOperation?_watched {sought : Operation → Bool}
    (hsought : ∀ op, sought (op.watched refusal) = sought op) (e : Expr) :
    e.firstOperation? (engine.watched refusal).operations sought =
      e.firstOperation? engine.operations sought := by
  unfold firstOperation?
  congr 1
  funext name
  rw [engine.find?_watched]
  cases Keyed.find? name engine.operations with
  | none => rfl
  | some op => exact hsought op

/-- Watching does not change what runs without awaiting. -/
theorem isSync_watched (e : Expr) :
    e.isSync (engine.watched refusal).operations = e.isSync engine.operations := by
  unfold isSync
  rw [firstOperation?_watched fun op => by cases op <;> rfl]

/-- Watching does not change what captures its scope. -/
theorem capturesScope_watched (e : Expr) :
    e.capturesScope (engine.watched refusal).operations = e.capturesScope engine.operations := by
  unfold capturesScope
  rw [firstOperation?_watched fun op => by cases op <;> rfl]

mutual

/-- Watching methods does not change what is deterministic. -/
theorem determinacy_watched (R : Registry) : ∀ e : Expr,
    e.determinacy (engine.watched refusal).operations R = e.determinacy engine.operations R
  | .literal _ | .path _ => rfl
  | .named _ value => determinacy_watched R value
  | .call operation args => by
    unfold determinacy
    rw [engine.find?_watched, determinacies_watched R args]
    cases Keyed.find? operation engine.operations with
    | none => rfl
    | some op => cases op <;> rfl

/-- Watching does not change what is deterministic. -/
theorem determinacies_watched (R : Registry) : ∀ es : List Expr,
    determinacies (engine.watched refusal).operations R es = determinacies engine.operations R es
  | [] => rfl
  | e :: es => by
    unfold determinacies
    rw [determinacy_watched R e, determinacies_watched R es]

end

end Expr

/-- An expression makes the same entry on a watched engine. -/
theorem TemplateEntry.interpreted_watched (engine : Engine) (refusal : Error) (R : Registry)
    (key : String) (e : Expr) :
    TemplateEntry.interpreted (engine.watched refusal).operations R key e =
      TemplateEntry.interpreted engine.operations R key e := by
  simp only [interpreted, Expr.traits, Expr.isSync_watched, Expr.capturesScope_watched,
    Expr.determinacy_watched]

/-! ### Layers -/

/-- What the layers of an expression have in common on a watched engine and on the engine. -/
def Engine.watching (refusal : Error) : Pairing where
  templates := True
  methods := fun m m' => m = m'.watched refusal
  entries := Eq

/-- An expression has the layers on a watched engine that it has on the engine. -/
theorem Expr.layer_watched (engine : Engine) (refusal : Error) (mode : Mode) : ∀ e : Expr,
    (e.layer (engine.watched refusal).operations mode).Rel (Engine.watching refusal) Eq
      (e.layer engine.operations mode)
  | .literal v => .value v
  | .path p => .path p
  | .named _ value => layer_watched engine refusal mode value
  | .call operation args => by
    have hself : ∀ l : Layer Expr, (∀ m args, l ≠ .method m args) →
        l.Rel (Engine.watching refusal) Eq l := fun l hl =>
      .self l (fun _ _ _ => trivial) (fun m args h => absurd h (hl m args)) fun _ _ _ => rfl
    unfold layer Operations.get
    rw [engine.find?_watched]
    cases hop : Keyed.find? operation engine.operations with
    | none => exact .refused _
    | some op =>
      cases op with
      | method m =>
        have hm : (m.watched refusal).isAsync = m.isAsync := rfl
        simp only [Option.map_some, Operation.watched, Operation.layer, hm]
        split
        · exact .refused _
        · exact .method rfl (List.forall₂_same.mpr fun _ _ => ⟨rfl, rfl⟩)
      | define =>
        have hlayer : Operation.layer (engine.watched refusal).operations mode .define args =
            Operation.layer engine.operations mode .define args := by
          simp only [Operation.layer, TemplateEntry.interpreted_watched]
        simp only [Option.map_some, Operation.watched, hlayer]
        refine hself _ fun m args' h => ?_
        have hdefine := Operation.eq_of_layer h rfl
        cases hdefine
      | form | loop | context | template | lookup | position =>
        refine hself _ fun m args' h => ?_
        have hmethod := Operation.eq_of_layer h rfl
        cases hmethod

/-! ### Watched code -/

namespace Fragment

mutual

/-- The fragment with all of its methods watched. -/
noncomputable def watched (refusal : Error) : Fragment → Fragment
  | const v => const v
  | path p => path p
  | lookup p => lookup p
  | position r => position r
  | form f parts => form f (watchedAll refusal parts)
  | loop kind params selector body branch =>
    loop kind params (watched refusal selector) (watched refusal body) (watched refusal branch)
  | context params named value body =>
    context params (watchedNamed refusal named)
      (match value with
        | some v => some (watched refusal v)
        | none => none)
      (watched refusal body)
  | template name named => template (watched refusal name) (watchedNamed refusal named)
  | define name body traits => define (watched refusal name) (watched refusal body) traits
  | method m args => method (m.watched refusal) (watchedArgs refusal args)
  | awaiting operation inner => awaiting operation (watched refusal inner)

/-- The fragments of a list with all of their methods watched. -/
noncomputable def watchedAll (refusal : Error) : List Fragment → List Fragment
  | [] => []
  | f :: fs => watched refusal f :: watchedAll refusal fs

/-- Named fragments with all of their methods watched. -/
noncomputable def watchedNamed (refusal : Error) :
    List (String × Fragment) → List (String × Fragment)
  | [] => []
  | (name, f) :: fs => (name, watched refusal f) :: watchedNamed refusal fs

/-- The arguments of a method with all of their methods watched. -/
noncomputable def watchedArgs (refusal : Error) :
    List (Option String × Fragment) → List (Option String × Fragment)
  | [] => []
  | (name, f) :: fs => (name, watched refusal f) :: watchedArgs refusal fs

end

variable (refusal : Error)

/-- A list is watched fragment by fragment. -/
theorem watchedAll_eq_map (fs : List Fragment) :
    watchedAll refusal fs = fs.map (watched refusal) := by
  induction fs with
  | nil => rfl
  | cons f fs ih => rw [watchedAll, ih, List.map_cons]

/-- Named fragments are watched one by one. -/
theorem watchedNamed_eq_mapValues (fs : List (String × Fragment)) :
    watchedNamed refusal fs = Keyed.mapValues (watched refusal) fs := by
  induction fs with
  | nil => rfl
  | cons f fs ih => rw [watchedNamed, ih, Keyed.mapValues_cons]

/-- Arguments are watched one by one. -/
theorem watchedArgs_eq_mapValues (fs : List (Option String × Fragment)) :
    watchedArgs refusal fs = Keyed.mapValues (watched refusal) fs := by
  induction fs with
  | nil => rfl
  | cons f fs ih => rw [watchedArgs, ih, Keyed.mapValues_cons]

/-- Watching methods does not change whether a fragment touches the frames around it. -/
theorem touchesFrames_watched (f : Fragment) :
    (f.watched refusal).touchesFrames = f.touchesFrames := by
  induction f using induction with
  | step f ih =>
    have hany : ∀ {fs : List Fragment}, (∀ g ∈ fs, g ∈ f.parts) →
        (fs.map (watched refusal)).any touchesFrames = fs.any touchesFrames := fun h => by
      rw [List.any_map, Bool.eq_iff_iff, List.any_eq_true, List.any_eq_true]
      exact exists_congr fun g => and_congr_right fun hg => by rw [← ih g (h g hg)]; rfl
    cases f with
    | const | path | lookup | position | template => rfl
    | form f ps =>
      simp only [watched, touchesFrames, watchedAll_eq_map, touchesAny_eq_any]
      exact hany fun _ h => h
    | loop kind params selector body branch =>
      simp only [watched, touchesFrames]
      rw [ih selector (by simp [parts]), ih body (by simp [parts]), ih branch (by simp [parts])]
    | context params named value body =>
      have hnamed : ((named.map Prod.snd).map (watched refusal)).any touchesFrames =
          (named.map Prod.snd).any touchesFrames :=
        hany fun g hg => List.mem_append_left _ (List.mem_append_left _ hg)
      cases value with
      | none =>
        simp only [watched, touchesFrames, watchedNamed_eq_mapValues, touchesNamed_eq_any,
          Keyed.map_snd_mapValues]
        rw [hnamed, ih body (by simp [parts])]
      | some v =>
        simp only [watched, touchesFrames, watchedNamed_eq_mapValues, touchesNamed_eq_any,
          Keyed.map_snd_mapValues]
        rw [hnamed, ih body (by simp [parts]), ih v (by simp [parts])]
    | define name body traits => exact ih name (List.mem_singleton.mpr rfl)
    | method m args =>
      simp only [watched, touchesFrames, watchedArgs_eq_mapValues, touchesArgs_eq_any,
        Keyed.map_snd_mapValues]
      exact hany fun _ h => h
    | awaiting operation inner => exact ih inner (List.mem_singleton.mpr rfl)

end Fragment

/-- Code with the methods that its fragments hold watched. -/
noncomputable def Code.watched (refusal : Error) : Code → Code
  | walked e => walked e
  | built f => built (f.watched refusal)

/-- Watching does not change what is constant. -/
theorem Code.constant?_watched (refusal : Error) (c : Code) :
    (c.watched refusal).constant? = c.constant? := by
  cases c with
  | walked e => rfl
  | built f =>
    cases f with
    | context params named value body => cases value <;> rfl
    | const | path | lookup | position | form | loop | template | define | method | awaiting => rfl

/-- The body of a template with the methods that it holds watched. -/
noncomputable def TemplateBody.watched (refusal : Error) : TemplateBody → TemplateBody
  | .compiled f => .compiled (f.watched refusal)
  | .interpreted e isSync => .interpreted e isSync

/-- The template with the methods that its body holds watched. -/
noncomputable def TemplateEntry.watched (refusal : Error) (entry : TemplateEntry) : TemplateEntry :=
  { entry with body := entry.body.watched refusal }

/-- The registry with the methods that its bodies hold watched. -/
noncomputable def Registry.watched (refusal : Error) (R : Registry) : Registry :=
  Keyed.mapValues (TemplateEntry.watched refusal) R

/-- The code of a watched body is watched. -/
theorem TemplateBody.code_watched (refusal : Error) (body : TemplateBody) :
    (body.watched refusal).code = body.code.watched refusal := by
  cases body <;> rfl

/-- The first entry runs the code of the second one with its methods watched. -/
structure TemplateEntry.Watches (refusal : Error) (x y : TemplateEntry) : Prop where
  body : x.body = y.body.watched refusal
  capturesScope : x.capturesScope = y.capturesScope

/-- What the layers of watched code and of the code have in common. -/
def Code.watching (refusal : Error) : Pairing where
  templates := True
  methods := fun m m' => m = m'.watched refusal
  entries := fun entry entry' => ∀ T R key, (entry T key).Watches refusal (entry' R key) ∧
    (entry T key).name = key ∧ (entry' R key).name = key

/-- A layer of a watched fragment is that of the fragment, with its methods and parts watched. -/
theorem Fragment.layer_watched (refusal : Error) (mode : Mode) : ∀ f : Fragment,
    ((f.watched refusal).layer mode).Rel (Code.watching refusal)
      (fun g g' => g = g'.watched refusal) (f.layer mode)
  | .const v => .value v
  | .path p => .path p
  | .lookup p => .lookup p
  | .position r => .position r
  | .form f ps => by
    simp only [watched, watchedAll_eq_map, layer]
    exact .form f (List.forall₂_map_left_iff.mpr (List.forall₂_same.mpr fun _ _ => rfl))
  | .loop kind params selector body branch => .loop kind params rfl rfl rfl
  | .context params named value body => by
    have hnamed : List.Forall₂ (Layer.NamedRel fun g g' => g = g'.watched refusal)
        (Keyed.mapValues (watched refusal) named) named :=
      List.forall₂_map_left_iff.mpr (List.forall₂_same.mpr fun _ _ => ⟨rfl, rfl⟩)
    cases value with
    | none =>
      simp only [watched, watchedNamed_eq_mapValues, layer]
      exact .context params hnamed .none rfl
    | some v =>
      simp only [watched, watchedNamed_eq_mapValues, layer]
      exact .context params hnamed (.some rfl) rfl
  | .template name named => by
    simp only [watched, watchedNamed_eq_mapValues, layer]
    exact .template trivial rfl
      (List.forall₂_map_left_iff.mpr (List.forall₂_same.mpr fun _ _ => ⟨rfl, rfl⟩))
  | .define name body traits => by
    simp only [watched, layer]
    refine .define rfl fun _ _ _ => ⟨⟨rfl, ?_⟩, rfl, rfl⟩
    exact touchesFrames_watched refusal body
  | .method m args => by
    have hm : (m.watched refusal).isAsync = m.isAsync := rfl
    simp only [watched, layer, watchedArgs_eq_mapValues, hm]
    split
    · exact .refused _
    · exact .method rfl
        (List.forall₂_map_left_iff.mpr (List.forall₂_same.mpr fun _ _ => ⟨rfl, rfl⟩))
  | .awaiting operation inner => by
    cases mode with
    | sync => exact .refused _
    | awaited => exact layer_watched refusal .awaited inner

/-- Watched code has the layers on a watched engine that the code has on the engine. -/
theorem Code.layer_watched (engine : Engine) (refusal : Error) (mode : Mode) (c : Code) :
    ((c.watched refusal).layer (engine.watched refusal).operations mode).Rel (Code.watching refusal)
      (fun d d' => d = d'.watched refusal) (c.layer engine.operations mode) := by
  cases c with
  | walked e =>
    refine (Expr.layer_watched engine refusal mode e).transfer id (fun _ _ => id) ?_ ?_
    · rintro name entry _ hl rfl T R key
      obtain ⟨body, -, rfl⟩ := Expr.exists_define hl
      exact ⟨⟨rfl, rfl⟩, rfl, rfl⟩
    · rintro part - _ rfl
      rfl
  | built f =>
    refine (Fragment.layer_watched refusal mode f).transfer id (fun _ _ => id)
      (fun _ _ _ _ => id) ?_
    rintro g - _ rfl
    rfl

end Stencil
