import Stencil.Proofs.Definitions

/-!
# Histories

What is registered under a name, over everything that may happen to a workspace: templates are built
and rendered, code is evaluated, engines are added and changed, and templates are registered and
removed. An evaluation only adds templates, and its ledger says which. An expression that is folded
while a template is being built is evaluated like any other. So what is there stays the same until
the very name is registered again or removed, in the registry where it is.

## Main results

* `Workspace.History.find?`: what is registered under a name stays the same unless the history has a
  registration or a removal of the name.
* `evaluation_only_defines`: evaluations, those of folding among them, add the templates of their
  ledger and change nothing else that is registered.
-/

namespace Stencil

/-! ### Building and registering -/

section

variable {engine : Engine} {depth : Nat} {key : String} {found : TemplateEntry}

/-- That a template is registered under a name, which computations may keep. -/
def Conduct.keepingEntry (key : String) (found : TemplateEntry) : Conduct :=
  .keeping (fun R => Keyed.find? key R = some found) fun _ => True

open Conduct (keepingEntry)

/-- Folding changes nothing that is registered. -/
theorem Engine.tryFold_keepsEntry (engine : Engine) (depth : Nat) (e : Expr) :
    (keepingEntry key found).Holds (engine.tryFold depth e) :=
  Conduct.keeping_tryFold engine depth e fun _ _ _ hE hrun =>
    ⟨(engine.replays depth .sync (.walked e) _ hrun).1 key found hE, fun _ _ => trivial⟩

/-- Making an entry changes nothing that is registered, and the entry has the name that is given. -/
theorem Engine.buildEntry_keepsEntry {β : Type} (name : String) (e : Expr) (interpreted : Bool)
    {k : TemplateEntry → EvalM β}
    (hk : ∀ entry, entry.name = name → (keepingEntry key found).Holds (k entry)) :
    (keepingEntry key found).Holds (engine.buildEntry depth name e interpreted >>= k) := by
  have hbuild : (keepingEntry key found).Holds (engine.build depth e) :=
    Conduct.build engine depth (fun _ => Conduct.keeping_ofExcept fun _ _ => trivial)
      Conduct.keeping_templates (engine.tryFold_keepsEntry depth) e
  exact Conduct.buildEntry engine depth Conduct.keeping_templates hbuild name interpreted
    (fun R => hk _ rfl) fun R f => hk _ rfl

/-- What is done with the registered templates has to keep the entry. -/
theorem Conduct.keepingEntry_update {α : Type} {k : Registry → EvalM α}
    (h : ∀ ⦃E r E'⦄, Keyed.find? key E.templates = some found → k E.templates E = some (r, E') →
      Keyed.find? key E'.templates = some found) :
    (keepingEntry key found).Holds (EvalM.templates >>= k) :=
  fun _ _ _ hE hr => ⟨h hE hr, fun _ _ => trivial⟩

/-- A registration changes nothing that is registered under another name. -/
theorem Engine.registerExpr_keepsEntry {name : String} (h : key ≠ name) (e : Expr)
    (interpreted : Bool) :
    (keepingEntry key found).Holds (engine.registerExpr depth name e interpreted) := by
  refine engine.buildEntry_keepsEntry name e interpreted fun entry hname => ?_
  refine Conduct.keepingEntry_update ?_
  rintro E r E' hE ⟨⟩
  exact (Keyed.find?_insert_ne (hname ▸ h) entry E.templates).trans hE

/-- To register a template text changes nothing that is registered under another name. -/
theorem Engine.register_keepsEntry {name : String} (h : key ≠ name) (text : String)
    (options : Options) (interpreted : Bool) :
    (keepingEntry key found).Holds (engine.register depth name text options interpreted) :=
  Conduct.bind _ (Conduct.keeping_ofExcept fun _ _ => trivial) fun e =>
    engine.registerExpr_keepsEntry h e interpreted

/-- An insertion changes nothing that is registered under another name, nor under its own name when
that has to be free. -/
theorem Engine.insertEntry_keepsEntry {name : String} {ifAbsent : Bool}
    (h : ifAbsent = false → key ≠ name) (e : Expr) (interpreted : Bool) :
    (keepingEntry key found).Holds (engine.insertEntry depth name e interpreted ifAbsent) := by
  refine engine.buildEntry_keepsEntry name e interpreted fun entry hname => ?_
  refine Conduct.keepingEntry_update ?_
  cases ifAbsent with
  | true =>
    rintro E r E' hE ⟨⟩
    exact Keyed.find?_insertNew hE
  | false =>
    rintro E r E' hE ⟨⟩
    exact (Keyed.find?_insert_ne (hname ▸ h rfl) entry E.templates).trans hE

end

/-! ### Workspaces -/

namespace Workspace

/-- A name in the registry at a place. -/
abbrev Spot := Nat × String

/-- What may happen to a workspace, and the name that it registers or removes in some registry, if
it does so. Whether it succeeds makes no difference. -/
inductive Act : Workspace → Option Spot → Workspace → Prop
  | step {w w' : Workspace} : Step w w' → Act w none w'
  | evaluate {w w' : Workspace} {seat : Seat} {depth : Nat} {mode : Mode} {c : Code} {s : Scope}
      {outcome : Outcome Value} :
      w.perform seat (fun engine => c.eval (engine.host depth mode) s) = some (outcome, w') →
      Act w none w'
  | addEngine (w : Workspace) (name : String) (origin : EngineOrigin) :
      Act w none (w.addEngine name origin)
  | addMethod (w : Workspace) (seat : Seat) (m : Method) : Act w none (w.addMethod seat m)
  | addAlias {w w' : Workspace} {seat : Seat} {other name : String} :
      w.addAlias seat other name = .ok w' → Act w none w'
  | register {w w' : Workspace} {seat : Seat} {depth : Nat} {name text : String} {options : Options}
      {interpreted : Bool} {outcome : Outcome Unit} :
      w.perform seat (fun engine => engine.register depth name text options interpreted) =
        some (outcome, w') →
      Act w (some (seat.registry, name)) w'
  | insert {w w' : Workspace} {seat : Seat} {depth : Nat} {name : String} {e : Expr}
      {interpreted : Bool} {outcome : Outcome Bool} :
      w.perform seat (fun engine => engine.insertEntry depth name e interpreted false) =
        some (outcome, w') →
      Act w (some (seat.registry, name)) w'
  | insertIfAbsent {w w' : Workspace} {seat : Seat} {depth : Nat} {name : String} {e : Expr}
      {interpreted : Bool} {outcome : Outcome Bool} :
      w.perform seat (fun engine => engine.insertEntry depth name e interpreted true) =
        some (outcome, w') →
      Act w none w'
  | remove (w : Workspace) (seat : Seat) (name : String) :
      Act w (some (seat.registry, name))
        (w.setRegistry seat (Keyed.erase name (w.registryAt seat)))

/-- What has happened to a workspace, and the names that have been registered and removed. -/
inductive History : Workspace → List Spot → Workspace → Prop
  | start (w : Workspace) : History w [] w
  | act {w w' w'' : Workspace} {spots : List Spot} {spot : Option Spot} :
      History w spots w' → Act w' spot w'' →
      History w (spots ++ spot.toList) w''

variable {w w' : Workspace} {key : String} {found : TemplateEntry} {other : Seat}

/-- Only the registry that is replaced changes. -/
theorem find?_of_set {registries : List Registry} {place : Nat} {R : Registry} {i : Nat}
    (hfound : Keyed.find? key (registries[i]?.getD []) = some found)
    (hR : place = i → Keyed.find? key R = some found) :
    Keyed.find? key ((registries.set place R)[i]?.getD []) = some found := by
  rw [List.getElem?_set]
  split
  · next hplace =>
    split
    · exact hR hplace
    · next hout =>
      rw [← hplace, List.getElem?_eq_none (Nat.le_of_not_lt hout)] at hfound
      cases hfound
  · exact hfound

/-- What is run on an engine has to keep what is registered there. -/
theorem find?_of_perform {α : Type} {seat : Seat} {action : Engine → EvalM α} {outcome : Outcome α}
    (h : w.perform seat action = some (outcome, w'))
    (hkeeps : seat.registry = other.registry → ∀ engine,
      (Conduct.keepingEntry key found).Holds (action engine))
    (hfound : Keyed.find? key (w.registryAt other) = some found) :
    Keyed.find? key (w'.registryAt other) = some found := by
  obtain ⟨result, effects, hrun, -, rfl⟩ := exists_of_perform h
  refine find?_of_set hfound fun hplace => ?_
  have hbefore : Keyed.find? key (w.registryAt seat) = some found := by
    unfold registryAt at hfound ⊢
    rwa [hplace]
  exact (hkeeps hplace _ hbefore hrun).1

/-- An engine that is added changes no registry. -/
theorem find?_addEngine (name : String) (origin : EngineOrigin)
    (hfound : Keyed.find? key (w.registryAt other) = some found) :
    Keyed.find? key ((w.addEngine name origin).registryAt other) = some found := by
  cases origin with
  | isolated =>
    show Keyed.find? key ((w.registries ++ [[]])[other.registry]?.getD []) = some found
    by_cases hplace : other.registry < w.registries.length
    · rw [List.getElem?_append_left hplace]
      exact hfound
    · rw [registryAt, List.getElem?_eq_none (Nat.le_of_not_lt hplace)] at hfound
      cases hfound
  | common | sharing | clone => exact hfound

/-- What is registered under a name stays the same when something happens that neither registers nor
removes the name. -/
theorem Act.find? {spot : Option Spot} (h : Act w spot w')
    (hspot : spot ≠ some (other.registry, key))
    (hfound : Keyed.find? key (w.registryAt other) = some found) :
    Keyed.find? key (w'.registryAt other) = some found := by
  have hkey : ∀ {seat : Seat} {name : String}, spot = some (seat.registry, name) →
      seat.registry = other.registry → key ≠ name := by
    rintro seat name rfl hplace rfl
    exact hspot (by rw [hplace])
  cases h with
  | step h => exact h.follows.registryAt other key found hfound
  | evaluate h =>
    refine find?_of_perform h (fun _ engine => ?_) hfound
    exact fun E r E' hE hrun => ⟨(engine.replays _ _ _ _ hrun).1 key found hE, fun _ _ => trivial⟩
  | addEngine name origin => exact find?_addEngine name origin hfound
  | addMethod => exact hfound
  | @addAlias _ seat name named h =>
    unfold Workspace.addAlias at h
    cases hadded : (w.engineAt seat).addAlias name named with
    | error err =>
      rw [hadded] at h
      cases h
    | ok engine =>
      rw [hadded] at h
      cases h
      exact hfound
  | register h =>
    exact find?_of_perform h
      (fun hplace engine => engine.register_keepsEntry (hkey rfl hplace) _ _ _) hfound
  | insert h =>
    exact find?_of_perform h
      (fun hplace engine => engine.insertEntry_keepsEntry (fun _ => hkey rfl hplace) _ _) hfound
  | insertIfAbsent h =>
    refine find?_of_perform h (fun _ engine => engine.insertEntry_keepsEntry ?_ _ _) hfound
    exact nofun
  | remove seat name =>
    refine find?_of_set hfound fun hplace => ?_
    rw [Keyed.find?_erase_ne (hkey rfl hplace), registryAt, hplace]
    exact hfound

/-- What is registered under a name stays the same unless the name is registered again or
removed. -/
theorem History.find? {spots : List Spot} (h : History w spots w')
    (hspots : (other.registry, key) ∉ spots)
    (hfound : Keyed.find? key (w.registryAt other) = some found) :
    Keyed.find? key (w'.registryAt other) = some found := by
  induction h with
  | start => exact hfound
  | act _ hact ih =>
    rw [List.mem_append, not_or] at hspots
    refine hact.find? ?_ (ih hspots.1)
    rintro rfl
    exact hspots.2 (by simp)

end Workspace

/-! ### What evaluations define -/

/-- An expression that is folded is evaluated like any other, unless it is left to run time. -/
theorem Engine.tryFold_gains {engine : Engine} {depth : Nat} {e : Expr} {E E' : Effects}
    {r : Except Error (Option Value)} (h : engine.tryFold depth e E = some (r, E')) :
    E' = E ∨ ∃ calls result after,
      Traced engine depth .sync ((Code.walked e).plan engine.operations .sync (Scope.root .null))
        (Engine.foldEffects E) calls result after ∧
      E'.templates = after.templates ∧ E.templates.Gains E'.templates calls := by
  rcases Engine.tryFold_cases h with ⟨-, rfl⟩ | ⟨-, -, result, after, heval, -, rfl⟩
  · exact .inl rfl
  · obtain ⟨calls, htrace, hgains⟩ := Code.gains_of_eval (c := .walked e) heval
    exact .inr ⟨calls, result, after, htrace, rfl, hgains⟩

/-- An evaluation, without awaiting or with, changes nothing that is registered, whether it succeeds
or fails; and every name that is new afterwards has the template of the first definition that was
made under it. There is one ledger of the definitions that were made. An expression that is folded
while a template is being built is evaluated in the same way, or not at all. So over all that may
happen to a workspace, what is registered under a name only changes when this name is registered or
removed. -/
theorem evaluation_only_defines (engine : Engine) (depth : Nat) :
    (∀ (mode : Mode) (c : Code) s E r E', c.eval (engine.host depth mode) s E = some (r, E') →
      ∃ calls, Traced engine depth mode (c.plan engine.operations mode s) E calls r E' ∧
        (∀ others r' E'',
          Traced engine depth mode (c.plan engine.operations mode s) E others r' E'' →
            others = calls) ∧
        E.templates.Gains E'.templates calls) ∧
    (∀ e E r E', engine.tryFold depth e E = some (r, E') →
      E' = E ∨ ∃ calls result after,
        Traced engine depth .sync ((Code.walked e).plan engine.operations .sync (Scope.root .null))
          (Engine.foldEffects E) calls result after ∧
        E'.templates = after.templates ∧ E.templates.Gains E'.templates calls) ∧
    ∀ (w : Workspace) spots w', w.History spots w' → ∀ (seat : Seat) key found,
      Keyed.find? key (w.registryAt seat) = some found → (seat.registry, key) ∉ spots →
      Keyed.find? key (w'.registryAt seat) = some found := by
  refine ⟨fun mode c s E r E' h => ?_, fun e E r E' h => Engine.tryFold_gains h, ?_⟩
  · obtain ⟨calls, htrace, hgains⟩ := Code.gains_of_eval h
    exact ⟨calls, htrace, fun others r' E'' hothers => (hothers.unique htrace).1, hgains⟩
  · exact fun w spots w' h seat key found hfound hspots => h.find? hspots hfound

/-- A template is defined twice under one name and called: the ledger has both definitions, and the
first one is registered. A text that is folded defines nothing. What is registered in a workspace is
still there when another template has been registered. -/
theorem evaluation_only_defines_inline :
    let engine : Engine :=
      { operations := [("cat", .form .concat), ("inline", .define), ("partial", .template)] }
    let e : Expr := .call "cat" [.call "inline" [.text "Y", .text "first"],
      .call "inline" [.text "Y", .text "second"], .call "partial" [.text "Y"]]
    let folded : Expr := .call "cat" [.text "a"]
    let entry (text : String) : TemplateEntry :=
      TemplateEntry.interpreted engine.operations [] "Y" (.text text)
    let w : Workspace :=
      { operations := [engine.operations], registries := [[("Y", entry "first")]] }
    (∃ E' calls, (Code.walked e).eval (engine.host 1 .sync) (Scope.root .null) {} =
        some (.ok (.string "first"), E') ∧
      Traced engine 1 .sync ((Code.walked e).plan engine.operations .sync (Scope.root .null)) {}
        calls (.ok (.string "first")) E' ∧
      calls.map (fun call => (call.1, call.2.body.code)) =
        [("Y", .walked (.text "first")), ("Y", .walked (.text "second"))] ∧
      (Keyed.find? "Y" E'.templates).map (fun entry => entry.body.code) =
        some (.walked (.text "first"))) ∧
    (∃ E' after, engine.tryFold 1 folded {} = some (.ok (some (.string "a")), E') ∧
      Traced engine 1 .sync
        ((Code.walked folded).plan engine.operations .sync (Scope.root .null))
        (Engine.foldEffects {}) [] (.ok (.string "a")) after ∧
      E'.templates = after.templates) ∧
    ∃ outcome w', w.perform ⟨0, 0⟩ (fun engine => engine.insertEntry 1 "X" (.text "x") true false) =
        some (outcome, w') ∧
      Keyed.find? "Y" (w'.registryAt ⟨0, 0⟩) = some (entry "first") := by
  intro engine e folded entry w
  obtain ⟨heval, hfold, hhistory⟩ := evaluation_only_defines engine 1
  refine ⟨?_, ?_, ?_⟩
  · obtain ⟨calls, htrace, hunique, hgains⟩ := heval .sync (.walked e) (Scope.root .null) {} _ _ rfl
    refine ⟨_, calls, rfl, htrace, ?_⟩
    have hcalls := hunique _ _ _ (.part (.part .done .define) (.part (.part .done .define)
      (.part (.part .done (.find rfl (.call .done))) .done)))
    subst hcalls
    exact ⟨rfl, by rw [hgains "Y"]; rfl⟩
  · obtain hsame | ⟨calls, result, after, htrace, hafter, -⟩ := hfold folded {} _ _ rfl
    · cases congrArg Effects.kept hsame
    · obtain ⟨rfl, rfl, -⟩ := htrace.unique (.part .done .done)
      exact ⟨_, after, rfl, htrace, hafter⟩
  · obtain ⟨outcome, w', hinsert⟩ : ∃ outcome w', w.perform ⟨0, 0⟩
        (fun engine => engine.insertEntry 1 "X" (.text "x") true false) = some (outcome, w') :=
      ⟨_, _, rfl⟩
    exact ⟨outcome, w', hinsert, hhistory w _ w' (.act (.start w) (.insert hinsert)) ⟨0, 0⟩ "Y"
      (entry "first") rfl (by decide)⟩

end Stencil
