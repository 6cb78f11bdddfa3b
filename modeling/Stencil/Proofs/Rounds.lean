import Stencil.Engine
import Stencil.Proofs.Building

/-!
# The rounds of a loop

A loop with `each` evaluates its body once for each item of a value, with the place of the item at
hand: its number or its key, and whether it stands at one end of the loop. A walk leaves a frame
behind in every round; a built loop may leave none, and may evaluate short sequences at once. All of
them run the same rounds in the same order.

The marks of the ends are not kept with a place but computed from it, by number. A key that is the
number zero therefore counts as a first item wherever it stands.

## Main results

* `LoopStyle.eval_each`: a loop evaluates its body in each of its rounds, in order.
* `turns_seen`: what can be read of the place in each round.
* `Engine.each_rounds`: both of them for every loop, walked or built, awaited or not.
* `Engine.zero_key_first`: a key that is marked as the first one.
-/

namespace Stencil

/-! ### Places -/

/-- What a round knows of its place in a loop. -/
structure Turn where
  index : Value
  /-- It is marked as the first round. -/
  first : Bool
  /-- It is marked as the last round. -/
  last : Bool

/-- What the rounds of a loop over a value know of their places, in order. Items and characters are
numbered from zero, fields and entries go by their keys. Only sequences have a last round, and a
first round is told by its number, which may be a key. -/
def Value.turns : Value → List Turn
  | .array _ items => items.mapIdx fun i _ =>
    { index := .ofNat i, first := i == 0, last := i + 1 == items.length }
  | .string text => text.toList.mapIdx fun i _ =>
    { index := .ofNat i, first := i == 0, last := false }
  | .object _ fields => fields.map fun (name, _) =>
    { index := .string name, first := false, last := false }
  | .map _ entries => entries.map fun (key, _) =>
    { index := key, first := key.word? == some 0, last := false }
  | _ => []

/-- What can be read in a scope is what the turn tells. -/
structure Turn.SeenIn (turn : Turn) (s : Scope) : Prop where
  index : PositionRead.index.read s.position = turn.index
  first : PositionRead.first.read s.position = .bool turn.first
  last : PositionRead.last.read s.position = .bool turn.last

/-- The scopes of the rounds of a loop over a value. -/
def rounds (params : List String) (source : Value) (s : Scope) : List Scope :=
  source.items.map fun (place, item) =>
    s.enter item (blockBindings params item place.index) (some place)

namespace Position

/-- The number of an item as a word, as long as there are words. -/
theorem word?_ofNat {i : Nat} (h : i < 9223372036854775808) :
    ∃ n, (Value.ofNat i).word? = some n ∧ n.toInt = i :=
  ⟨Int64.ofNat i, rfl, Int64.toInt_ofNat_of_lt h⟩

/-- The first round is the one with the index zero. -/
theorem isFirst_ofNat {i : Nat} (h : i < 9223372036854775808) (length : Option Nat) :
    isFirst { index := .ofNat i, length } = (i == 0) := by
  obtain ⟨n, hn, hi⟩ := word?_ofNat h
  have hzero : n = 0 ↔ i = 0 := by
    rw [← Int64.toInt_inj, hi]
    exact Int.natCast_eq_zero
  rw [isFirst, hn, Bool.eq_iff_iff]
  simpa using hzero

/-- The last round is the one before the length. -/
theorem isLast_ofNat {i n : Nat} (h : i < 9223372036854775808) :
    isLast { index := .ofNat i, length := some n } = (i + 1 == n) := by
  obtain ⟨w, hw, hi⟩ := word?_ofNat h
  rw [isLast, hw, Bool.eq_iff_iff]
  cases n with
  | zero => simp
  | succ last =>
    simp only [hi, beq_iff_eq]
    omega

/-- What a place tells. -/
def turn (p : Position) : Turn :=
  { index := p.index, first := p.isFirst, last := p.isLast }

end Position

/-- The rounds know what their places tell, as long as the items can be numbered. -/
theorem Value.turns_eq {source : Value} (hlength : source.items.length ≤ 9223372036854775808) :
    source.turns = source.items.map fun item => item.1.turn := by
  cases source with
  | null | bool | int | float => rfl
  | array mark items =>
    refine List.ext_getElem (by simp [turns, Value.items]) fun i hi _ => ?_
    have hword : i < 9223372036854775808 := by
      simp only [Value.items, turns, List.length_mapIdx] at hlength hi
      omega
    simp [turns, Value.items, Position.turn, Position.isFirst_ofNat hword,
      Position.isLast_ofNat hword]
  | string text =>
    refine List.ext_getElem (by simp [turns, Value.items]) fun i hi _ => ?_
    have hword : i < 9223372036854775808 := by
      simp only [Value.items, turns, List.length_mapIdx] at hlength hi
      omega
    simp [turns, Value.items, Position.turn, Position.isFirst_ofNat hword, Position.isLast]
  | object | map =>
    simp [turns, Value.items, Position.turn, Position.isFirst, Position.isLast, Value.word?]

/-- What can be read of the place in each round. -/
theorem turns_seen (params : List String) {source : Value} (s : Scope)
    (hlength : source.items.length ≤ 9223372036854775808) :
    List.Forall₂ Turn.SeenIn source.turns (rounds params source s) := by
  rw [Value.turns_eq hlength, rounds, List.forall₂_map_left_iff, List.forall₂_map_right_iff]
  exact List.forall₂_same.mpr fun _ _ => ⟨rfl, rfl, rfl⟩

/-! ### Rounds -/

/-- A loop over whatever has items: the texts of the body in all rounds, in order, or the branch
when there are no rounds. -/
def eachItem (params : List String) (selector body branch : Lazy) : Lazy := fun s => do
  let source ← selector s
  match rounds params source s with
  | [] => branch s
  | rounds =>
    return .string (← rounds.foldlM (fun out round => return out ++ (← body round).output) "")

/-- Rounds are taken one after the other, each behind the output so far. -/
theorem roundsFrom_eq_foldlM (body : Lazy) (out : String) (scopes : List Scope) :
    roundsFrom body out scopes =
      scopes.foldlM (fun out round => return out ++ (← body round).output) out := by
  induction scopes generalizing out with
  | nil => rfl
  | cons s scopes ih => simp [roundsFrom, ih]

/-- What has items is truthy, records without fields apart. -/
theorem Value.items_of_not_truthy {v : Value} (h : v.truthy = false) : v.items = [] := by
  cases v with
  | null | bool | int | float => rfl
  | string text =>
    obtain rfl : text = "" := by simpa [truthy] using h
    rfl
  | array mark items =>
    obtain rfl : items = [] := by simpa [truthy] using h
    rfl
  | object => cases h
  | map mark entries =>
    obtain rfl : entries = [] := by simpa [truthy] using h
    rfl

/-- A loop evaluates its body in each of its rounds, in order. -/
theorem LoopStyle.eval_each (params : List String) (selector body branch : Lazy) :
    LoopStyle.eval { kind := .each, params, framed := true, atOnce := false } selector body branch =
      eachItem params selector body branch := by
  funext s
  unfold LoopStyle.eval eachItem
  refine bind_congr fun source => ?_
  rw [LoopStyle.run_eq]
  simp only [roundsFrom_eq_foldlM, rounds, LoopStyle.round]
  cases hitems : source.items with
  | nil =>
    cases source.truthy <;> simp
  | cons item items =>
    have htruthy : source.truthy = true := by
      by_contra h
      rw [Value.items_of_not_truthy (Bool.of_not_eq_true h)] at hitems
      cases hitems
    simp [htruthy]

/-! ### Loops in templates -/

namespace Fragment

variable {f : Fragment} {mode : Mode}

/-- A fragment without notes whose layer is a loop is that loop. -/
theorem eq_loop (hawaited : f.awaited? = none) {kind : LoopKind} {params : List String}
    {selector body branch : Fragment} (h : f.layer mode = .loop kind params selector body branch) :
    f = .loop kind params selector body branch := by
  cases f with
  | loop =>
    cases h
    rfl
  | awaiting => cases hawaited
  | method m args =>
    unfold layer at h
    split at h <;> cases h
  | _ => cases h

/-- A fragment without notes whose layer reads a position is that read. -/
theorem eq_position (hawaited : f.awaited? = none) {read : PositionRead}
    (h : f.layer mode = .position read) : f = .position read := by
  cases f with
  | position =>
    cases h
    rfl
  | awaiting => cases hawaited
  | method m args =>
    unfold layer at h
    split at h <;> cases h
  | _ => cases h

/-- An iteration evaluates its selector, and its body or its branch for what that is. -/
theorem eval_each (engine : Engine) (depth : Nat) (mode : Mode) (params : List String)
    (selector body branch : Fragment) :
    engine.evalFragment depth mode (.loop .each params selector body branch) =
      eachItem params (engine.evalFragment depth mode selector)
        (engine.evalFragment depth mode body) (engine.evalFragment depth mode branch) := by
  unfold Engine.evalFragment
  rw [eval_eq_run]
  exact LoopStyle.eval_each ..

end Fragment

namespace Engine

variable {engine : Engine} {f : Fragment}

/-- A call that a layer belongs to in both modes is folded, or built into a fragment with a layer of
that form that may wait for something. -/
theorem BuildsIn.folded_or_inner {Inv : Nat → Effects → Prop} (hfold : FoldKeeps engine Inv)
    {e : Expr} (hf : BuildsIn engine Inv e f) :
    (∃ v, f = .const v ∧ FoldsIn engine Inv e v) ∨
      ∃ inner, SameLayers engine Inv e inner ∧ inner.awaited? = none ∧
        ∀ depth mode, checkFragment mode f = .ok () →
          engine.evalFragment depth mode f = engine.evalFragment depth mode inner := by
  cases hf.assembled hfold with
  | folded hv => exact .inl ⟨_, rfl, hv⟩
  | layered hsame hawaited => exact .inr ⟨f, hsame, hawaited, fun _ _ _ => rfl⟩
  | @awaiting inner operation hsame hawaited =>
    refine .inr ⟨inner, hsame, hawaited, fun depth mode hcheck => ?_⟩
    cases mode with
    | sync => cases hcheck
    | awaited => rfl

/-- A loop that is not folded runs its rounds with what its parts have been built into. -/
theorem build_each {e selector body branch : Expr} {params : List String}
    (hlayer : ∀ mode,
      e.layer engine.operations mode = .loop .each params selector body branch)
    (hf : engine.Builds e f) :
    (∃ v, f = .const v ∧ FoldsIn engine (fun _ _ => True) e v) ∨
      ∃ selector' body' branch', engine.Builds selector selector' ∧ engine.Builds body body' ∧
        engine.Builds branch branch' ∧ ∀ depth mode, checkFragment mode f = .ok () →
          engine.evalFragment depth mode f =
            eachItem params (engine.evalFragment depth mode selector')
              (engine.evalFragment depth mode body') (engine.evalFragment depth mode branch') := by
  rcases hf.folded_or_inner foldKeeps_true with hv | ⟨inner, hsame, hawaited, heval⟩
  · exact .inl hv
  · have hrel := hsame .awaited
    rw [hlayer] at hrel
    generalize hl : inner.layer .awaited = l at hrel
    cases hrel with
    | @loop _ _ _ _ _ selector' body' branch' hselector hbody hbranch =>
      obtain rfl := Fragment.eq_loop hawaited hl
      refine .inr ⟨selector', body', branch', hselector, hbody, hbranch, fun depth mode hf => ?_⟩
      rw [heval depth mode hf, Fragment.eval_each]

/-- A read of the place is never folded. -/
theorem build_position {name : String} {read : PositionRead} {args : List Expr}
    (hread : Keyed.find? name engine.operations = some (.position read))
    (hf : engine.Builds (.call name args) f) (depth : Nat) (mode : Mode) (s : Scope)
    (hcheck : checkFragment mode f = .ok ()) :
    engine.evalFragment depth mode f s = pure (read.read s.position) := by
  rcases hf.folded_or_inner foldKeeps_true with ⟨v, -, hv⟩ | ⟨inner, hsame, hawaited, heval⟩
  · obtain ⟨_, E, _, -, hfold⟩ := hv
    rcases tryFold_cases hfold with ⟨hnone, -⟩ | ⟨hdeterministic, -⟩
    · cases hnone
    · rw [Expr.isDeterministic, Expr.determinacy, hread] at hdeterministic
      cases hdeterministic
  · have hrel := hsame .awaited
    rw [Expr.layer_of_find? hread] at hrel
    generalize hl : inner.layer .awaited = l at hrel
    cases hrel with
    | position =>
      obtain rfl := Fragment.eq_position hawaited hl
      rw [heval depth mode hcheck]
      rfl

/-- A loop with `each` runs its rounds in order, walked or built, awaited or not, unless it has been
folded into what the walk led to. What is read of the place in a round, by its operations in any of
those ways, is what the round knows of it. The keys of a map come as they are, so that among them
the number zero is marked as the first round. -/
theorem each_rounds (engine : Engine) {loop : String} {args : List Expr} {selector body : Expr}
    {branch : Option Expr} (hloop : Keyed.find? loop engine.operations = some (.loop .each))
    (hparts : loopParts? (splitArgs args).positional = some (selector, body, branch)) :
    let params := blockParams (splitArgs args)
    (∀ depth mode, engine.evalExpr depth mode (.call loop args) =
      eachItem params (engine.evalExpr depth mode selector) (engine.evalExpr depth mode body)
        (engine.evalExpr depth mode (branch.getD (.text "")))) ∧
    (∀ f, engine.Builds (.call loop args) f →
      (∃ v, f = .const v ∧ ∃ depth E after,
        engine.evalExpr depth .sync (.call loop args) (Scope.root .null) E =
          some (.ok v, after)) ∨
      ∃ selector' body' branch', engine.Builds selector selector' ∧ engine.Builds body body' ∧
        engine.Builds (branch.getD (.text "")) branch' ∧
        ∀ depth mode, checkFragment mode f = .ok () →
          engine.evalFragment depth mode f =
            eachItem params (engine.evalFragment depth mode selector')
              (engine.evalFragment depth mode body') (engine.evalFragment depth mode branch')) ∧
    (∀ source s, source.items.length ≤ 9223372036854775808 →
      List.Forall₂ Turn.SeenIn source.turns (rounds params source s)) ∧
    ∀ name read args, Keyed.find? name engine.operations = some (.position read) →
      (∀ depth mode s,
        engine.evalExpr depth mode (.call name args) s = pure (read.read s.position)) ∧
      ∀ f, engine.Builds (.call name args) f → ∀ depth mode s, checkFragment mode f = .ok () →
        engine.evalFragment depth mode f s = pure (read.read s.position) := by
  intro params
  have hlayer : ∀ mode, (Expr.call loop args).layer engine.operations mode =
      .loop .each params selector body (branch.getD (.text "")) := by
    intro mode
    rw [Expr.layer_of_find? hloop, Operation.layer, hparts]
    rfl
  refine ⟨fun depth mode => ?_, fun f hf => ?_, fun source s => turns_seen params s,
    fun name read args hread => ⟨fun depth mode s => ?_, fun f => build_position hread⟩⟩
  · unfold evalExpr
    rw [Expr.eval_eq_run, hlayer]
    exact LoopStyle.eval_each ..
  · refine (build_each hlayer hf).imp_left ?_
    rintro ⟨v, rfl, _, E, _, -, hfold⟩
    rcases tryFold_cases hfold with ⟨hnone, -⟩ | ⟨-, -, result, after, heval, hresult, -⟩
    · cases hnone
    · cases result with
      | error err => cases hresult
      | ok w =>
        cases hresult
        exact ⟨v, rfl, _, _, _, heval⟩
  · unfold evalExpr
    rw [Expr.eval_eq_run, Expr.layer_of_find? hread]
    rfl

/-- A loop over two items, walked and built, of which the second one is marked as the last. -/
theorem each_rounds_sequence :
    let engine : Engine := {}
    let items : Expr := .path ⟨["items"]⟩
    let last : Expr := .call "@last" []
    let loop : Fragment :=
      .loop .each [] (.path ⟨["items"]⟩) (.position .last) (.const (.string ""))
    Keyed.find? "each" engine.operations = some (.loop .each) ∧
      loopParts? (splitArgs [items, last]).positional = some (items, last, none) ∧
      (∀ depth mode, engine.evalExpr depth mode (.call "each" [items, last]) =
        eachItem [] (engine.evalExpr depth mode items) (engine.evalExpr depth mode last)
          (engine.evalExpr depth mode (.text ""))) ∧
      (engine.Builds (.call "each" [items, last]) loop ∧
        ∃ selector body branch, engine.Builds items selector ∧ engine.Builds last body ∧
          engine.Builds (.text "") branch ∧ ∀ depth mode,
            engine.evalFragment depth mode loop =
              eachItem [] (engine.evalFragment depth mode selector)
                (engine.evalFragment depth mode body) (engine.evalFragment depth mode branch)) ∧
      List.Forall₂ Turn.SeenIn [⟨.int 0, true, false⟩, ⟨.int 1, false, true⟩]
        (rounds [] (.array .new [.null, .null]) (Scope.root .null)) ∧
      (∀ depth mode s, engine.evalExpr depth mode last s =
        pure (PositionRead.last.read s.position)) ∧
      engine.Builds last (.position .last) ∧
      ∀ depth mode s, engine.evalFragment depth mode (.position .last) s =
        pure (PositionRead.last.read s.position) := by
  intro engine items last loop
  have hloop : Keyed.find? "each" engine.operations = some (.loop .each) := rfl
  have hparts : loopParts? (splitArgs [items, last]).positional = some (items, last, none) := rfl
  have hbuilds : engine.Builds (.call "each" [items, last]) loop := ⟨0, {}, _, trivial, rfl⟩
  have hlast : engine.Builds last (.position .last) := ⟨0, {}, _, trivial, rfl⟩
  have hchecked : ∀ mode, checkFragment mode loop = .ok () ∧
      checkFragment mode (.position .last) = .ok () := by
    rintro (_ | _) <;> exact ⟨rfl, rfl⟩
  obtain ⟨hwalked, hbuilt, hturns, hreads⟩ := each_rounds engine hloop hparts
  obtain ⟨hwalks, hruns⟩ := hreads "@last" .last [] rfl
  refine ⟨hloop, hparts, hwalked, ⟨hbuilds, ?_⟩, hturns (.array .new [.null, .null]) _ (by decide),
    hwalks, hlast, fun depth mode s => hruns _ hlast depth mode s (hchecked mode).2⟩
  obtain ⟨v, hv, -⟩ | ⟨selector, body, branch, hselector, hbody, hbranch, heval⟩ :=
    hbuilt loop hbuilds
  · exact Fragment.noConfusion hv
  · exact ⟨selector, body, branch, hselector, hbody, hbranch,
      fun depth mode => heval depth mode (hchecked mode).1⟩

/-- The entry of a map whose key is zero is marked as the first one in every strategy, though an
entry goes by its key and has no number. -/
theorem zero_key_first :
    let engine : Engine := {}
    let e : Expr := .call "each" [.path ⟨["m"]⟩, .call "@first" []]
    let data : Value := .object .new [("m", .map .new [(.int 0, .string "a")])]
    let shown (strategy : Strategy) := do
      (← engine.buildTemplate 1 strategy e).render engine 1 data
    [Strategy.interpreted, .compiledSync, .interpretedAsync, .compiledAsync].map
        (fun strategy => (shown strategy {}).map Prod.fst) =
      List.replicate 4 (some (.ok "true")) :=
  rfl

end Engine

end Stencil
