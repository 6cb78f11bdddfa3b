import Stencil.Value.Basic

/-!
# The parts of a value

Sequences, records and maps hold values, which may hold others in turn. Many facts about a value ask
something of everything that is found in it at some depth, the keys of maps included: that nothing
in it is a floating-point number, or that no record in it has a field twice. All these are of one
form, and hold of a container when they hold of the container itself and of what it holds.

A record never has a field twice, as its fields are only ever written by name. The type of values
does not say so, and it is asked for where it matters.

## Main results

* `Value.induction_on`: what passes from the parts of a value to the value holds of all values.
* `Value.throughout_array`, `Value.throughout_object`, `Value.throughout_map`: what holds throughout
  a container.
-/

namespace Stencil

/-! ### Keyed lists -/

namespace Keyed

variable {κ α β γ : Type}

/-- Changes the values and leaves the keys. -/
def mapValues (f : α → β) (entries : List (κ × α)) : List (κ × β) :=
  entries.map fun entry => (entry.1, f entry.2)

@[simp] theorem mapValues_nil (f : α → β) : mapValues f ([] : List (κ × α)) = [] := rfl

@[simp] theorem mapValues_cons (f : α → β) (entry : κ × α) (entries : List (κ × α)) :
    mapValues f (entry :: entries) = (entry.1, f entry.2) :: mapValues f entries := rfl

@[simp] theorem mapValues_id (entries : List (κ × α)) : mapValues id entries = entries := by
  simp [mapValues]

@[simp] theorem mapValues_mapValues (g : β → γ) (f : α → β) (entries : List (κ × α)) :
    mapValues g (mapValues f entries) = mapValues (fun a => g (f a)) entries := by
  simp [mapValues]

@[simp] theorem map_snd_mapValues (f : α → β) (entries : List (κ × α)) :
    (mapValues f entries).map Prod.snd = (entries.map Prod.snd).map f := by
  simp [mapValues]

@[simp] theorem isEmpty_mapValues (f : α → β) (entries : List (κ × α)) :
    (mapValues f entries).isEmpty = entries.isEmpty := by
  cases entries <;> rfl

/-- What is found among mapped values is the image of what is found. -/
theorem find?_mapValues (f : α → β) (key : String) (entries : Keyed α) :
    find? key (mapValues f entries) = (find? key entries).map f := by
  induction entries with
  | nil => rfl
  | cons entry entries ih =>
    by_cases h : entry.1 = key
    · simp [find?, h]
    · simp [find?, h, ih]

/-- What is found is there. -/
theorem mem_of_find? {key : String} {value : α} {entries : Keyed α}
    (h : find? key entries = some value) : (key, value) ∈ entries := by
  induction entries with
  | nil => cases h
  | cons entry entries ih =>
    obtain ⟨k, v⟩ := entry
    unfold find? at h
    split at h
    · next hkey =>
      obtain rfl := Option.some.inj h
      exact hkey ▸ List.mem_cons_self
    · exact List.mem_cons_of_mem _ (ih h)

/-- Putting in a value and mapping the values can be exchanged. -/
theorem insert_mapValues (f : α → β) (key : String) (value : α) (entries : Keyed α) :
    insert key (f value) (mapValues f entries) = mapValues f (insert key value entries) := by
  induction entries with
  | nil => rfl
  | cons entry entries ih =>
    by_cases h : entry.1 = key
    · simp [insert, h]
    · simp [insert, h, ih]

/-- A new key is written at the end. -/
theorem insertNew_eq (key : String) (value : α) (entries : Keyed α) :
    insertNew key value entries =
      if contains key entries then entries else entries ++ [(key, value)] := by
  unfold insertNew
  split
  · rfl
  · next h =>
    have hfind : find? key entries = none := by simpa [contains] using h
    clear h
    induction entries with
    | nil => rfl
    | cons entry entries ih =>
      obtain ⟨k, v⟩ := entry
      by_cases hk : k = key
      · simp [find?, hk] at hfind
      · simp only [find?, hk, if_false] at hfind
        simp only [insert, hk, if_false, ih hfind, List.cons_append]

/-- Extending a list and mapping the values can be exchanged. -/
theorem extend_mapValues (f : α → β) (more entries : Keyed α) :
    extend (mapValues f entries) (mapValues f more) = mapValues f (extend entries more) := by
  induction more generalizing entries with
  | nil => rfl
  | cons entry more ih =>
    have h := ih (insert entry.1 entry.2 entries)
    rw [← insert_mapValues] at h
    exact h

/-- The keys of a list are those under which something is found. -/
theorem mem_keys_iff {key : String} {entries : Keyed α} :
    key ∈ keys entries ↔ (find? key entries).isSome := by
  induction entries with
  | nil => simp [keys, find?]
  | cons entry entries ih =>
    rw [keys] at ih ⊢
    by_cases h : entry.1 = key
    · simp [find?, h]
    · simp [find?, h, Ne.symm h, ih]

/-- Where all keys are distinct, every entry is found under its key. -/
theorem find?_eq_some_iff {key : String} {value : α} {entries : Keyed α}
    (h : (keys entries).Nodup) : find? key entries = some value ↔ (key, value) ∈ entries := by
  refine ⟨mem_of_find?, fun hmem => ?_⟩
  induction entries with
  | nil => cases hmem
  | cons entry entries ih =>
    obtain ⟨hk, hrest⟩ := List.nodup_cons.mp h
    rcases List.mem_cons.mp hmem with rfl | hmem
    · simp [find?]
    · have hne : entry.1 ≠ key := by
        rintro rfl
        exact hk (List.mem_map.mpr ⟨_, hmem, rfl⟩)
      simp only [find?, hne, if_false, ih hrest hmem]

end Keyed

namespace Value

/-! ### Induction -/

/-- The members of a pair in a list are smaller than the list. -/
theorem sizeOf_pair_lt {α β : Type} [SizeOf α] [SizeOf β] {pair : α × β} {pairs : List (α × β)}
    (h : pair ∈ pairs) :
    sizeOf pair.1 < sizeOf pairs ∧ sizeOf pair.2 < sizeOf pairs := by
  have hlt := List.sizeOf_lt_of_mem h
  obtain ⟨a, b⟩ := pair
  rw [Prod.mk.sizeOf_spec] at hlt
  dsimp only
  omega

section Induction

variable {motive : Value → Prop} (null : motive .null) (bool : ∀ b, motive (.bool b))
  (int : ∀ n, motive (.int n)) (float : ∀ x, motive (.float x))
  (string : ∀ text, motive (.string text))
  (array : ∀ mark items, (∀ item ∈ items, motive item) → motive (.array mark items))
  (object : ∀ mark fields, (∀ field ∈ fields, motive field.2) → motive (.object mark fields))
  (map : ∀ mark entries, (∀ entry ∈ entries, motive entry.1 ∧ motive entry.2) →
    motive (.map mark entries))
include null bool int float string array object map

/-- What passes from the items, fields and entries of a value to the value holds of all values. -/
@[elab_as_elim]
theorem induction_on : ∀ v : Value, motive v
  | .null => null
  | .bool b => bool b
  | .int n => int n
  | .float x => float x
  | .string text => string text
  | .array mark items => array mark items fun item _ => induction_on item
  | .object mark fields => object mark fields fun field h =>
    have := sizeOf_pair_lt h
    induction_on field.2
  | .map mark entries => map mark entries fun entry h =>
    have := sizeOf_pair_lt h
    ⟨induction_on entry.1, induction_on entry.2⟩
termination_by v => sizeOf v

end Induction

/-! ### Parts -/

/-- The first value is the second one, or is found in it at some depth. -/
inductive Part (p : Value) : Value → Prop where
  | self : Part p p
  | item {mark : Mark} {items : List Value} {item : Value} (hmem : item ∈ items)
      (h : Part p item) : Part p (.array mark items)
  | field {mark : Mark} {fields : List (String × Value)} {field : String × Value}
      (hmem : field ∈ fields) (h : Part p field.2) : Part p (.object mark fields)
  | key {mark : Mark} {entries : List (Value × Value)} {entry : Value × Value}
      (hmem : entry ∈ entries) (h : Part p entry.1) : Part p (.map mark entries)
  | entry {mark : Mark} {entries : List (Value × Value)} {entry : Value × Value}
      (hmem : entry ∈ entries) (h : Part p entry.2) : Part p (.map mark entries)

/-- Something holds of a value and of everything that is found in it. -/
def Throughout (P : Value → Prop) (v : Value) : Prop :=
  ∀ p, Part p v → P p

section Throughout

variable {P : Value → Prop} {mark : Mark}

/-- What holds throughout a value holds of the value. -/
theorem Throughout.self {v : Value} (h : Throughout P v) : P v :=
  h v .self

/-- A value without parts has only itself to look at. -/
theorem throughout_scalar {v : Value} (h : v.isScalar || v.isNull) :
    Throughout P v ↔ P v := by
  refine ⟨Throughout.self, fun hv p hp => ?_⟩
  cases hp with
  | self => exact hv
  | item | field | key | entry => cases h

/-- What holds throughout a sequence holds of it and throughout its items. -/
theorem throughout_array {items : List Value} :
    Throughout P (.array mark items) ↔
      P (.array mark items) ∧ ∀ item ∈ items, Throughout P item := by
  constructor
  · intro h
    exact ⟨h.self, fun item hmem p hp => h p (.item hmem hp)⟩
  · rintro ⟨hself, hitems⟩ p hp
    cases hp with
    | self => exact hself
    | item hmem hp => exact hitems _ hmem p hp

/-- What holds throughout a record holds of it and throughout its values. -/
theorem throughout_object {fields : List (String × Value)} :
    Throughout P (.object mark fields) ↔
      P (.object mark fields) ∧ ∀ field ∈ fields, Throughout P field.2 := by
  constructor
  · intro h
    exact ⟨h.self, fun field hmem p hp => h p (.field hmem hp)⟩
  · rintro ⟨hself, hfields⟩ p hp
    cases hp with
    | self => exact hself
    | field hmem hp => exact hfields _ hmem p hp

/-- What holds throughout a map holds of it and throughout its keys and values. -/
theorem throughout_map {entries : List (Value × Value)} :
    Throughout P (.map mark entries) ↔
      P (.map mark entries) ∧ ∀ entry ∈ entries, Throughout P entry.1 ∧ Throughout P entry.2 := by
  constructor
  · intro h
    exact ⟨h.self, fun entry hmem =>
      ⟨fun p hp => h p (.key hmem hp), fun p hp => h p (.entry hmem hp)⟩⟩
  · rintro ⟨hself, hentries⟩ p hp
    cases hp with
    | self => exact hself
    | key hmem hp => exact (hentries _ hmem).1 p hp
    | entry hmem hp => exact (hentries _ hmem).2 p hp

end Throughout

/-! ### Values without certain parts -/

/-- All floating-point numbers that the value holds are of one sort. -/
def AllFloats (Q : Float → Prop) : Value → Prop :=
  Throughout fun p => ∀ x, p = .float x → Q x

/-- The value holds no floating-point number that is no number. -/
abbrev NaNFree : Value → Prop :=
  AllFloats fun x => x.isNaN = false

/-- The value holds no floating-point number. -/
abbrev FloatFree : Value → Prop :=
  AllFloats fun _ => False

/-- The value holds no map. -/
def MapFree : Value → Prop :=
  Throughout fun p => ∀ mark entries, p ≠ .map mark entries

/-- No record that the value holds has a field twice. -/
def WellFormed : Value → Prop :=
  Throughout fun p => ∀ mark fields, p = .object mark fields → (Keyed.keys fields).Nodup

section Rules

variable {Q : Float → Prop} {mark : Mark}

@[simp] theorem allFloats_int (n : Int64) : AllFloats Q (.int n) :=
  (throughout_scalar rfl).mpr nofun

@[simp] theorem allFloats_null : AllFloats Q .null :=
  (throughout_scalar rfl).mpr nofun

@[simp] theorem allFloats_string (text : String) : AllFloats Q (.string text) :=
  (throughout_scalar rfl).mpr nofun

@[simp] theorem allFloats_float {x : Float} : AllFloats Q (.float x) ↔ Q x := by
  rw [AllFloats, throughout_scalar rfl]
  simp

@[simp] theorem allFloats_array {items : List Value} :
    AllFloats Q (.array mark items) ↔ ∀ item ∈ items, AllFloats Q item := by
  rw [AllFloats, throughout_array]
  simp

@[simp] theorem allFloats_object {fields : List (String × Value)} :
    AllFloats Q (.object mark fields) ↔ ∀ field ∈ fields, AllFloats Q field.2 := by
  rw [AllFloats, throughout_object]
  simp

@[simp] theorem allFloats_map {entries : List (Value × Value)} :
    AllFloats Q (.map mark entries) ↔
      ∀ entry ∈ entries, AllFloats Q entry.1 ∧ AllFloats Q entry.2 := by
  rw [AllFloats, throughout_map]
  simp

/-- What has no parts holds no map. -/
theorem mapFree_scalar {v : Value} (h : v.isScalar || v.isNull) : MapFree v := by
  refine (throughout_scalar h).mpr ?_
  rintro mark entries rfl
  cases h

@[simp] theorem mapFree_array {items : List Value} :
    MapFree (.array mark items) ↔ ∀ item ∈ items, MapFree item := by
  rw [MapFree, throughout_array]
  simp

@[simp] theorem mapFree_object {fields : List (String × Value)} :
    MapFree (.object mark fields) ↔ ∀ field ∈ fields, MapFree field.2 := by
  rw [MapFree, throughout_object]
  simp

/-- A map is not free of maps. -/
theorem not_mapFree_map {entries : List (Value × Value)} : ¬MapFree (.map mark entries) :=
  fun h => h.self mark entries rfl

@[simp] theorem wellFormed_int (n : Int64) : WellFormed (.int n) :=
  (throughout_scalar rfl).mpr nofun

/-- What has no parts has no fields. -/
theorem wellFormed_scalar {v : Value} (h : v.isScalar || v.isNull) : WellFormed v := by
  refine (throughout_scalar h).mpr ?_
  rintro mark fields rfl
  cases h

@[simp] theorem wellFormed_array {items : List Value} :
    WellFormed (.array mark items) ↔ ∀ item ∈ items, WellFormed item := by
  rw [WellFormed, throughout_array]
  simp

@[simp] theorem wellFormed_object {fields : List (String × Value)} :
    WellFormed (.object mark fields) ↔
      (Keyed.keys fields).Nodup ∧ ∀ field ∈ fields, WellFormed field.2 := by
  rw [WellFormed, throughout_object]
  simp

@[simp] theorem wellFormed_map {entries : List (Value × Value)} :
    WellFormed (.map mark entries) ↔
      ∀ entry ∈ entries, WellFormed entry.1 ∧ WellFormed entry.2 := by
  rw [WellFormed, throughout_map]
  simp

end Rules

end Value

end Stencil
