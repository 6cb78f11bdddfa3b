import Stencil.Proofs.Likeness
import Stencil.Proofs.Rounding

/-!
# Equality of values

Strict equality is no equality of Lean values: an integer equals the number that it is rounded to,
and records are equal whatever the order of their fields. It is still reflexive and symmetric,
unless there is something in the values that should be a number and is none. Equal containers match
place by place: sequences and maps position by position, records name by name. So the laws are shown
for places, and carried over from the parts of a value to the value.

Transitivity fails at one point only. Two integers that are rounded to the same number both equal
this number, but not each other. Whether equality passes from one value to another through a third
one thus depends on the third one alone: on the numbers in it.

A container is equal to itself even if it holds what equals nothing, and marks tell which containers
are the same. They are not looked at in values that hold numbers only where numbers should be.

## Main results

* `Value.equal_array_iff`, `Value.equal_object_iff`, `Value.equal_map_iff`: equal containers match.
* `Value.equal_refl`, `Value.equal_symm`: equality is reflexive and symmetric.
* `Value.markless_of_naNFree`: where equality looks at no marks.
* `Value.equal_trans`, `Value.splits_of_part`: through which values equality is transitive.
* `Value.equal_laws`: all laws of both equalities.
-/

namespace Stencil

/-! ### Matching places -/

/-- Both sides have something at the same places, and what they have there is related. -/
def Matching {ι α β : Type} (R : α → β → Prop) (f : ι → Option α) (g : ι → Option β) : Prop :=
  ∀ i, Option.Rel R (f i) (g i)

section Matching

variable {ι α β γ : Type} {R : α → β → Prop} {f : ι → Option α} {g : ι → Option β}

/-- What is related to itself wherever it is matches itself. -/
theorem Matching.refl {R : α → α → Prop} (h : ∀ i a, f i = some a → R a a) : Matching R f f := by
  intro i
  cases hi : f i with
  | none => exact .none
  | some a => exact .some (h i a hi)

/-- Matching goes back when the relation does. -/
theorem Matching.symm {S : β → α → Prop} (h : Matching R f g)
    (hsymm : ∀ i a b, f i = some a → g i = some b → R a b → S b a) : Matching S g f := by
  intro i
  have hi := h i
  cases ha : f i <;> cases hb : g i <;> rw [ha, hb] at hi <;> cases hi
  · exact .none
  · next hrel => exact .some (hsymm i _ _ ha hb hrel)

/-- Matching goes on when the relation does. -/
theorem Matching.trans {S : β → γ → Prop} {T : α → γ → Prop} {k : ι → Option γ}
    (h : Matching R f g) (h' : Matching S g k)
    (htrans : ∀ i a b c, f i = some a → g i = some b → k i = some c → R a b → S b c → T a c) :
    Matching T f k := by
  intro i
  have hi := h i
  have hi' := h' i
  cases ha : f i <;> cases hb : g i <;> cases hc : k i <;> rw [ha, hb] at hi <;>
    rw [hb, hc] at hi' <;> cases hi <;> cases hi'
  · exact .none
  · next hrel hrel' => exact .some (htrans i _ _ _ ha hb hc hrel hrel')

/-- Both sides have something at the same places. -/
theorem Matching.isSome_eq (h : Matching R f g) (i : ι) : (f i).isSome = (g i).isSome := by
  have hi := h i
  cases ha : f i <;> cases hb : g i <;> rw [ha, hb] at hi <;> cases hi <;> rfl

/-- What is at a place on one side is related to something on the other side. -/
theorem Matching.exists_of_eq_some (h : Matching R f g) {i : ι} {a : α} (ha : f i = some a) :
    ∃ b, g i = some b ∧ R a b := by
  have hi := h i
  rw [ha] at hi
  cases hb : g i with
  | none => rw [hb] at hi; cases hi
  | some b =>
    rw [hb] at hi
    cases hi with
    | some hrel => exact ⟨b, rfl, hrel⟩

end Matching

/-- Lists match when they have the same length and related items at all positions. -/
theorem matching_getElem?_iff {α β : Type} {R : α → β → Prop} {as : List α} {bs : List β} :
    Matching R (fun i : ℕ => as[i]?) (fun i => bs[i]?) ↔ List.Forall₂ R as bs := by
  induction as generalizing bs with
  | nil =>
    cases bs with
    | nil => exact iff_of_true (fun _ => .none) .nil
    | cons b bs => exact iff_of_false (fun h => nomatch h 0) nofun
  | cons a as ih =>
    cases bs with
    | nil => exact iff_of_false (fun h => nomatch h 0) nofun
    | cons b bs =>
      rw [List.forall₂_cons, ← ih, Matching, ← Nat.and_forall_add_one]
      simp [Matching]

namespace Keyed

variable {α β : Type} {R : α → β → Prop} {as : Keyed α} {bs : Keyed β}

/-- Keyed lists match when every entry of one has a related one in the other, and both have the same
number of entries. -/
theorem matching_find?_iff (ha : (keys as).Nodup) (hb : (keys bs).Nodup) :
    Matching R (fun key => find? key as) (fun key => find? key bs) ↔
      as.length = bs.length ∧ ∀ entry ∈ as, ∃ b, find? entry.1 bs = some b ∧ R entry.2 b := by
  have hlength : as.length = (keys as).length ∧ bs.length = (keys bs).length := by simp [keys]
  constructor
  · intro h
    have hperm : (keys as).Perm (keys bs) := by
      refine (List.perm_ext_iff_of_nodup ha hb).mpr fun key => ?_
      rw [mem_keys_iff, mem_keys_iff, h.isSome_eq key]
    refine ⟨by rw [hlength.1, hlength.2, hperm.length_eq], fun entry hmem => ?_⟩
    exact h.exists_of_eq_some ((find?_eq_some_iff ha).mpr hmem)
  · rintro ⟨hlen, h⟩ key
    have hsub : keys as ⊆ keys bs := by
      intro key hmem
      obtain ⟨entry, hentry, rfl⟩ := List.mem_map.mp hmem
      obtain ⟨b, hfind, -⟩ := h entry hentry
      exact mem_keys_iff.mpr (Option.isSome_of_eq_some hfind)
    have hperm : (keys as).Perm (keys bs) :=
      (ha.subperm hsub).perm_of_length_le (by rw [← hlength.1, ← hlength.2, hlen])
    change Option.Rel R (find? key as) (find? key bs)
    cases hfind : find? key as with
    | some a =>
      obtain ⟨b, hb, hrel⟩ := h _ ((find?_eq_some_iff ha).mp hfind)
      rw [hb]
      exact .some hrel
    | none =>
      have hnone : find? key bs = none := by
        rw [← Option.not_isSome_iff_eq_none, ← mem_keys_iff, ← hperm.mem_iff, mem_keys_iff, hfind]
        simp
      rw [hnone]
      exact .none

end Keyed

namespace Value

/-! ### Equal numbers -/

@[simp] theorem equal_int_int (m n : Int64) : equal (.int m) (.int n) = (m == n) := by
  rw [equal, equalWithin]

@[simp] theorem equal_int_float (n : Int64) (x : Float) :
    equal (.int n) (.float x) = (Number.ofWord n == x) := by
  rw [equal, equalWithin]

@[simp] theorem equal_float_int (x : Float) (n : Int64) :
    equal (.float x) (.int n) = (Number.ofWord n == x) := by
  rw [equal, equalWithin]

@[simp] theorem equal_float_float (x y : Float) : equal (.float x) (.float y) = (x == y) := by
  rw [equal, equalWithin, Bool.false_and, Bool.false_and, Bool.or_false]

/-! ### Marks -/

/-- Equality treats two values alike, on whichever side they are. The first one is compared within
containers that may be one and the same, and so is the second one. -/
structure Indistinct (same same' : Bool) (v v' : Value) : Prop where
  left : ∀ w, equalWithin same v w = equalWithin same' v' w
  right : ∀ w, equalWithin same w v = equalWithin same' w v'

/-- Equality with the value looks at no marks, neither at those of the value nor at those of the
containers that it is found in. -/
def Markless (v : Value) : Prop :=
  ∀ same same', Indistinct same same' v v.unmarked

/-- Wherever a markless value stands, it equals the same values. -/
theorem Markless.equalWithin_eq {v : Value} (h : Markless v) (same : Bool) (w : Value) :
    equalWithin same v w = equal v w :=
  ((h same false).left w).trans ((h false false).left w).symm

section Indistinct

variable {same same' : Bool} (f : Value → Value)

/-- Sequences are treated alike when their items are. -/
theorem equalItems_map {items : List Value}
    (h : ∀ item ∈ items, Indistinct same same' item (f item)) (ws : List Value) :
    equalItems same items ws = equalItems same' (items.map f) ws ∧
      equalItems same ws items = equalItems same' ws (items.map f) := by
  induction items generalizing ws with
  | nil => cases ws <;> simp [equalItems]
  | cons item items ih =>
    obtain ⟨hitem, hitems⟩ := List.forall_mem_cons.mp h
    cases ws with
    | nil => simp [equalItems]
    | cons w ws =>
      simp only [List.map_cons, equalItems, hitem.left, hitem.right, ih hitems ws, and_self]

/-- Maps are treated alike when their keys and values are. -/
theorem equalEntries_map {entries : List (Value × Value)}
    (h : ∀ entry ∈ entries, Indistinct same same' entry.1 (f entry.1) ∧
      Indistinct same same' entry.2 (f entry.2)) (ws : List (Value × Value)) :
    equalEntries same entries ws = equalEntries same' (entries.map (Prod.map f f)) ws ∧
      equalEntries same ws entries = equalEntries same' ws (entries.map (Prod.map f f)) := by
  induction entries generalizing ws with
  | nil => cases ws <;> simp [equalEntries]
  | cons entry entries ih =>
    obtain ⟨⟨hkey, hvalue⟩, hentries⟩ := List.forall_mem_cons.mp h
    obtain ⟨key, value⟩ := entry
    cases ws with
    | nil => simp [equalEntries]
    | cons w ws =>
      obtain ⟨key', value'⟩ := w
      simp only [List.map_cons, Prod.map, equalEntries, hkey.left, hkey.right, hvalue.left,
        hvalue.right, ih hentries ws, and_self]

/-- Fields are treated alike when their values are. -/
theorem fieldsWithin_mapValues {fields : List (String × Value)}
    (h : ∀ field ∈ fields, Indistinct same same' field.2 (f field.2))
    (ws : List (String × Value)) :
    fieldsWithin same fields ws = fieldsWithin same' (Keyed.mapValues f fields) ws ∧
      fieldsWithin same ws fields = fieldsWithin same' ws (Keyed.mapValues f fields) := by
  constructor
  · induction fields with
    | nil => simp [fieldsWithin]
    | cons field fields ih =>
      obtain ⟨hfield, hfields⟩ := List.forall_mem_cons.mp h
      rw [Keyed.mapValues_cons, fieldsWithin, fieldsWithin, ih hfields]
      cases Keyed.find? field.1 ws with
      | none => rfl
      | some w => simp only [hfield.left w]
  · induction ws with
    | nil => simp [fieldsWithin]
    | cons w ws ih =>
      rw [fieldsWithin, fieldsWithin, ih, Keyed.find?_mapValues]
      cases hfind : Keyed.find? w.1 fields with
      | none => rfl
      | some v =>
        have hv := h _ (Keyed.mem_of_find? hfind)
        simp only [Option.map_some, hv.right w.2]

/-- Records are treated alike when the values of their fields are. -/
theorem equalFields_mapValues {fields : List (String × Value)}
    (h : ∀ field ∈ fields, Indistinct same same' field.2 (f field.2))
    (ws : List (String × Value)) :
    (fields.length == ws.length && fieldsWithin same fields ws) =
        ((Keyed.mapValues f fields).length == ws.length &&
          fieldsWithin same' (Keyed.mapValues f fields) ws) ∧
      (ws.length == fields.length && fieldsWithin same ws fields) =
        (ws.length == (Keyed.mapValues f fields).length &&
          fieldsWithin same' ws (Keyed.mapValues f fields)) := by
  have hlength : (Keyed.mapValues f fields).length = fields.length := List.length_map ..
  obtain ⟨hleft, hright⟩ := fieldsWithin_mapValues f h ws
  rw [hlength, hleft, hright]
  exact ⟨rfl, rfl⟩

end Indistinct

/-- Marks play no part where everything that should be a number is one. -/
theorem markless_of_naNFree {v : Value} (hv : NaNFree v) : Markless v := by
  induction v using induction_on with
  | null | bool | int | string =>
    intro same same'
    constructor <;> intro w <;> cases w <;> simp [unmarked, equalWithin]
  | float x =>
    have hx : x.isNaN = false := allFloats_float.mp hv
    intro same same'
    constructor <;> intro w <;> cases w <;>
      simp only [unmarked, seen, equalWithin, hx, Bool.and_false, Bool.false_and, Bool.or_false]
  | array mark items ih =>
    have hitems : ∀ same same', ∀ item ∈ items, Indistinct same same' item item.unmarked :=
      fun same same' item hmem => ih item hmem (allFloats_array.mp hv item hmem) same same'
    intro same same'
    constructor <;> intro w <;> cases w <;> simp only [unmarked_array, equalWithin]
    · exact (equalItems_map _ (hitems _ _) _).1
    · exact (equalItems_map _ (hitems _ _) _).2
  | object mark fields ih =>
    have hfields : ∀ same same', ∀ field ∈ fields,
        Indistinct same same' field.2 field.2.unmarked :=
      fun same same' field hmem => ih field hmem (allFloats_object.mp hv field hmem) same same'
    intro same same'
    constructor <;> intro w <;> cases w <;> simp only [unmarked_object, equalWithin]
    · exact (equalFields_mapValues _ (hfields _ _) _).1
    · exact (equalFields_mapValues _ (hfields _ _) _).2
  | map mark entries ih =>
    have hentries : ∀ same same', ∀ entry ∈ entries,
        Indistinct same same' entry.1 entry.1.unmarked ∧
          Indistinct same same' entry.2 entry.2.unmarked := by
      intro same same' entry hmem
      obtain ⟨hkey, hvalue⟩ := allFloats_map.mp hv entry hmem
      exact ⟨(ih entry hmem).1 hkey same same', (ih entry hmem).2 hvalue same same'⟩
    intro same same'
    constructor <;> intro w <;> cases w <;> simp only [unmarked_map, equalWithin]
    · exact (equalEntries_map _ (hentries _ _) _).1
    · exact (equalEntries_map _ (hentries _ _) _).2

/-! ### Equal containers -/

section Items

variable {same : Bool}

/-- Lists of items are equal item by item. -/
theorem equalItems_iff {as bs : List Value} (h : ∀ a ∈ as, Markless a) :
    equalItems same as bs ↔ List.Forall₂ (equal · ·) as bs := by
  induction as generalizing bs with
  | nil => cases bs <;> simp [equalItems]
  | cons a as ih =>
    obtain ⟨ha, has⟩ := List.forall_mem_cons.mp h
    cases bs <;> simp [equalItems, ha.equalWithin_eq, ih has]

/-- Lists of entries are equal entry by entry. -/
theorem equalEntries_iff {as bs : List (Value × Value)}
    (h : ∀ a ∈ as, Markless a.1 ∧ Markless a.2) :
    equalEntries same as bs ↔
      List.Forall₂ (fun a b => equal a.1 b.1 ∧ equal a.2 b.2) as bs := by
  induction as generalizing bs with
  | nil => cases bs <;> simp [equalEntries]
  | cons a as ih =>
    obtain ⟨⟨hkey, hvalue⟩, has⟩ := List.forall_mem_cons.mp h
    cases bs with
    | nil => simp [equalEntries]
    | cons b bs =>
      rw [equalEntries, hkey.equalWithin_eq, hvalue.equalWithin_eq, Bool.and_eq_true,
        Bool.and_eq_true, ih has, List.forall₂_cons]

/-- Fields are found equal name by name. -/
theorem fieldsWithin_iff {as bs : List (String × Value)} (h : ∀ a ∈ as, Markless a.2) :
    fieldsWithin same as bs ↔
      ∀ a ∈ as, ∃ b, Keyed.find? a.1 bs = some b ∧ equal a.2 b := by
  induction as with
  | nil => simp [fieldsWithin]
  | cons a as ih =>
    obtain ⟨ha, has⟩ := List.forall_mem_cons.mp h
    rw [fieldsWithin, Bool.and_eq_true, ih has, List.forall_mem_cons]
    refine and_congr_left fun _ => ?_
    cases Keyed.find? a.1 bs <;> simp [ha.equalWithin_eq same]

end Items

section Containers

variable {mark mark' : Mark}

/-- Equal sequences have equal items at all positions. -/
theorem equal_array_iff {items items' : List Value} (h : NaNFree (.array mark items)) :
    equal (.array mark items) (.array mark' items') ↔
      Matching (equal · ·) (fun i : ℕ => items[i]?) (fun i => items'[i]?) := by
  have hitems : ∀ item ∈ items, Markless item :=
    fun item hmem => markless_of_naNFree (allFloats_array.mp h item hmem)
  rw [matching_getElem?_iff, ← equalItems_iff hitems, equal, equalWithin]

/-- Equal records have equal values under all names. -/
theorem equal_object_iff {fields fields' : Keyed Value} (h : NaNFree (.object mark fields))
    (hkeys : (Keyed.keys fields).Nodup) (hkeys' : (Keyed.keys fields').Nodup) :
    equal (.object mark fields) (.object mark' fields') ↔
      Matching (equal · ·) (Keyed.find? · fields) (Keyed.find? · fields') := by
  have hfields : ∀ field ∈ fields, Markless field.2 :=
    fun field hmem => markless_of_naNFree (allFloats_object.mp h field hmem)
  rw [Keyed.matching_find?_iff hkeys hkeys', ← fieldsWithin_iff hfields, equal, equalWithin,
    Bool.and_eq_true, beq_iff_eq]

/-- Equal maps have equal keys and values at all positions. -/
theorem equal_map_iff {entries entries' : List (Value × Value)} (h : NaNFree (.map mark entries)) :
    equal (.map mark entries) (.map mark' entries') ↔
      Matching (fun a b => equal a.1 b.1 ∧ equal a.2 b.2) (fun i : ℕ => entries[i]?)
        (fun i => entries'[i]?) := by
  have hentries : ∀ entry ∈ entries, Markless entry.1 ∧ Markless entry.2 :=
    fun entry hmem => ⟨markless_of_naNFree (allFloats_map.mp h entry hmem).1,
      markless_of_naNFree (allFloats_map.mp h entry hmem).2⟩
  rw [matching_getElem?_iff, ← equalEntries_iff hentries, equal, equalWithin]

end Containers

/-! ### Laws -/

/-- A value as it can occur, in which everything that should be a number is one. -/
structure Proper (v : Value) : Prop where
  naNFree : NaNFree v
  wellFormed : WellFormed v

section Rules

variable {mark : Mark}

/-- A sequence is proper exactly if its items are. -/
theorem proper_array {items : List Value} :
    Proper (.array mark items) ↔ ∀ item ∈ items, Proper item :=
  ⟨fun h item hmem => ⟨allFloats_array.mp h.naNFree item hmem,
    wellFormed_array.mp h.wellFormed item hmem⟩,
  fun h => ⟨allFloats_array.mpr fun item hmem => (h item hmem).naNFree,
    wellFormed_array.mpr fun item hmem => (h item hmem).wellFormed⟩⟩

/-- A record is proper exactly if its names are distinct and its values are proper. -/
theorem proper_object {fields : List (String × Value)} :
    Proper (.object mark fields) ↔
      (Keyed.keys fields).Nodup ∧ ∀ field ∈ fields, Proper field.2 :=
  ⟨fun h => ⟨(wellFormed_object.mp h.wellFormed).1, fun field hmem =>
    ⟨allFloats_object.mp h.naNFree field hmem, (wellFormed_object.mp h.wellFormed).2 field hmem⟩⟩,
  fun h => ⟨allFloats_object.mpr fun field hmem => (h.2 field hmem).naNFree,
    wellFormed_object.mpr ⟨h.1, fun field hmem => (h.2 field hmem).wellFormed⟩⟩⟩

/-- A map is proper exactly if its keys and values are. -/
theorem proper_map {entries : List (Value × Value)} :
    Proper (.map mark entries) ↔ ∀ entry ∈ entries, Proper entry.1 ∧ Proper entry.2 := by
  constructor
  · intro h entry hmem
    obtain ⟨hkey, hvalue⟩ := allFloats_map.mp h.naNFree entry hmem
    obtain ⟨hkey', hvalue'⟩ := wellFormed_map.mp h.wellFormed entry hmem
    exact ⟨⟨hkey, hkey'⟩, ⟨hvalue, hvalue'⟩⟩
  · intro h
    exact ⟨allFloats_map.mpr fun entry hmem => ⟨(h entry hmem).1.naNFree, (h entry hmem).2.naNFree⟩,
      wellFormed_map.mpr fun entry hmem =>
        ⟨(h entry hmem).1.wellFormed, (h entry hmem).2.wellFormed⟩⟩

end Rules

/-- A proper value equals itself. -/
theorem equal_refl {v : Value} (h : Proper v) : equal v v := by
  induction v using induction_on with
  | null | bool | int | string => simp [equal, equalWithin]
  | float x =>
    rw [equal_float_float]
    exact Number.beq_self_iff.mpr (allFloats_float.mp h.naNFree)
  | array mark items ih =>
    refine (equal_array_iff h.naNFree).mpr (.refl fun i item hi => ?_)
    have hmem := List.mem_of_getElem? hi
    exact ih item hmem (proper_array.mp h item hmem)
  | object mark fields ih =>
    obtain ⟨hkeys, hfields⟩ := proper_object.mp h
    refine (equal_object_iff h.naNFree hkeys hkeys).mpr (.refl fun name value hfind => ?_)
    have hmem := (Keyed.find?_eq_some_iff hkeys).mp hfind
    exact ih _ hmem (hfields _ hmem)
  | map mark entries ih =>
    refine (equal_map_iff h.naNFree).mpr (.refl fun i entry hi => ?_)
    have hmem := List.mem_of_getElem? hi
    obtain ⟨hkey, hvalue⟩ := proper_map.mp h entry hmem
    exact ⟨(ih entry hmem).1 hkey, (ih entry hmem).2 hvalue⟩

/-- Equality of proper values goes back. -/
theorem equal_symm {a b : Value} (ha : Proper a) (hb : Proper b) (h : equal a b) : equal b a := by
  induction a using induction_on generalizing b with
  | null | bool | int | string => cases b <;> simp_all [equal, equalWithin]
  | float x =>
    cases b with
    | float y => rwa [equal_float_float, Number.beq_comm, ← equal_float_float]
    | _ => simp_all [equal, equalWithin]
  | array mark items ih =>
    cases b with
    | array mark' items' =>
      refine (equal_array_iff hb.naNFree).mpr (((equal_array_iff ha.naNFree).mp h).symm ?_)
      intro i item item' hi hi' hitem
      have hmem := List.mem_of_getElem? hi
      exact ih item hmem (proper_array.mp ha item hmem)
        (proper_array.mp hb item' (List.mem_of_getElem? hi')) hitem
    | _ => simp [equal, equalWithin] at h
  | object mark fields ih =>
    cases b with
    | object mark' fields' =>
      obtain ⟨hkeys, hfields⟩ := proper_object.mp ha
      obtain ⟨hkeys', hfields'⟩ := proper_object.mp hb
      refine (equal_object_iff hb.naNFree hkeys' hkeys).mpr
        (((equal_object_iff ha.naNFree hkeys hkeys').mp h).symm ?_)
      intro name value value' hfind hfind' hvalue
      have hmem := (Keyed.find?_eq_some_iff hkeys).mp hfind
      exact ih _ hmem (hfields _ hmem) (hfields' _ ((Keyed.find?_eq_some_iff hkeys').mp hfind'))
        hvalue
    | _ => simp [equal, equalWithin] at h
  | map mark entries ih =>
    cases b with
    | map mark' entries' =>
      refine (equal_map_iff hb.naNFree).mpr (((equal_map_iff ha.naNFree).mp h).symm ?_)
      rintro i entry entry' hi hi' ⟨hkey, hvalue⟩
      have hmem := List.mem_of_getElem? hi
      have hentry := proper_map.mp ha entry hmem
      have hentry' := proper_map.mp hb entry' (List.mem_of_getElem? hi')
      exact ⟨(ih entry hmem).1 hentry.1 hentry'.1 hkey, (ih entry hmem).2 hentry.2 hentry'.2 hvalue⟩
    | _ => simp [equal, equalWithin] at h

/-! ### Transitivity -/

/-- The number is what two words become that differ. -/
def Ambiguous (x : Float) : Prop :=
  ∃ m n : Int64, m ≠ n ∧ Number.ofWord m == x ∧ Number.ofWord n == x

/-- Small numbers are not ambiguous: integers with at most fifty-three digits are not rounded, and
others are not rounded to what is that small. -/
theorem not_ambiguous {x : Float} {q : ℚ} (hx : Number.value x = some q) (hq : |q| < 2 ^ 53) :
    ¬Ambiguous x := by
  have hexact : ∀ w : Int64, Number.ofWord w == x → (w.toInt : ℚ) = q := by
    intro w hw
    have hrounded := (Number.beq_iff (Number.value_ofWord w) hx).mp hw
    have hsmall : (Number.rounded w).natAbs < 2 ^ 53 := by
      rw [← hrounded, ← Int.cast_abs, Int.abs_eq_natAbs] at hq
      exact_mod_cast hq
    rw [← hrounded, Number.rounded_eq_of_natAbs_lt hsmall]
  rintro ⟨m, n, hne, hm, hn⟩
  exact hne (Int64.toInt_inj.mp (by exact_mod_cast (hexact m hm).trans (hexact n hn).symm))

/-- Only an integer and a number equal an integer. -/
theorem equal_trans_int {a c : Value} {n : Int64} (hab : equal a (.int n))
    (hbc : equal (.int n) c) : equal a c := by
  cases a with
  | int m =>
    obtain rfl : m = n := by simpa using hab
    exact hbc
  | float x =>
    have hx : Number.ofWord n == x := by simpa using hab
    cases c with
    | int k =>
      obtain rfl : n = k := by simpa using hbc
      exact hab
    | float y =>
      rw [equal_int_float] at hbc
      rw [equal_float_float]
      exact Number.beq_trans (Number.beq_comm .. ▸ hx) hbc
    | _ => simp [equal, equalWithin] at hbc
  | _ => simp [equal, equalWithin] at hab

/-- Through a number two integers are equal only if the number is ambiguous. -/
theorem equal_trans_float {a c : Value} {x : Float} (hclear : ¬Ambiguous x)
    (hab : equal a (.float x)) (hbc : equal (.float x) c) : equal a c := by
  cases a with
  | int m =>
    rw [equal_int_float] at hab
    cases c with
    | int n =>
      rw [equal_float_int] at hbc
      by_contra hne
      exact hclear ⟨m, n, by simpa using hne, hab, hbc⟩
    | float z =>
      rw [equal_float_float] at hbc
      rw [equal_int_float]
      exact Number.beq_trans hab hbc
    | _ => simp [equal, equalWithin] at hbc
  | float y =>
    rw [equal_float_float] at hab
    cases c with
    | int n =>
      rw [equal_float_int] at hbc ⊢
      exact Number.beq_trans hbc (Number.beq_comm .. ▸ hab)
    | float z =>
      rw [equal_float_float] at hbc ⊢
      exact Number.beq_trans hab hbc
    | _ => simp [equal, equalWithin] at hbc
  | _ => simp [equal, equalWithin] at hab

/-- Equality is transitive through a value that holds no ambiguous number. -/
theorem equal_trans {a b c : Value} (ha : Proper a) (hb : Proper b) (hc : Proper c)
    (hclear : AllFloats (fun x => ¬Ambiguous x) b) (hab : equal a b) (hbc : equal b c) :
    equal a c := by
  induction b using induction_on generalizing a c with
  | null | bool | string =>
    cases a <;> simp [equal, equalWithin] at hab
    cases c <;> simp [equal, equalWithin] at hbc
    simp_all [equal, equalWithin]
  | int n => exact equal_trans_int hab hbc
  | float x => exact equal_trans_float (allFloats_float.mp hclear) hab hbc
  | array mark items ih =>
    cases a with
    | array mark' items' =>
      cases c with
      | array mark'' items'' =>
        have hmatch := (equal_array_iff ha.naNFree).mp hab
        have hmatch' := (equal_array_iff hb.naNFree).mp hbc
        refine (equal_array_iff ha.naNFree).mpr (hmatch.trans hmatch' ?_)
        intro i item' item item'' hi' hi hi''
        have hmem := List.mem_of_getElem? hi
        exact ih item hmem (proper_array.mp ha item' (List.mem_of_getElem? hi'))
          (proper_array.mp hb item hmem) (proper_array.mp hc item'' (List.mem_of_getElem? hi''))
          (allFloats_array.mp hclear item hmem)
      | _ => simp [equal, equalWithin] at hbc
    | _ => simp [equal, equalWithin] at hab
  | object mark fields ih =>
    cases a with
    | object mark' fields' =>
      cases c with
      | object mark'' fields'' =>
        obtain ⟨hkeys, hfields⟩ := proper_object.mp hb
        obtain ⟨hkeys', hfields'⟩ := proper_object.mp ha
        obtain ⟨hkeys'', hfields''⟩ := proper_object.mp hc
        have hmatch := (equal_object_iff ha.naNFree hkeys' hkeys).mp hab
        have hmatch' := (equal_object_iff hb.naNFree hkeys hkeys'').mp hbc
        refine (equal_object_iff ha.naNFree hkeys' hkeys'').mpr (hmatch.trans hmatch' ?_)
        intro name value' value value'' hfind' hfind hfind''
        have hmem := (Keyed.find?_eq_some_iff hkeys).mp hfind
        exact ih _ hmem (hfields' _ ((Keyed.find?_eq_some_iff hkeys').mp hfind'))
          (hfields _ hmem) (hfields'' _ ((Keyed.find?_eq_some_iff hkeys'').mp hfind''))
          (allFloats_object.mp hclear _ hmem)
      | _ => simp [equal, equalWithin] at hbc
    | _ => simp [equal, equalWithin] at hab
  | map mark entries ih =>
    cases a with
    | map mark' entries' =>
      cases c with
      | map mark'' entries'' =>
        have hmatch := (equal_map_iff ha.naNFree).mp hab
        have hmatch' := (equal_map_iff hb.naNFree).mp hbc
        refine (equal_map_iff ha.naNFree).mpr (hmatch.trans hmatch' ?_)
        rintro i entry' entry entry'' hi' hi hi'' ⟨hkey, hvalue⟩ ⟨hkey', hvalue'⟩
        have hmem := List.mem_of_getElem? hi
        have hentry := proper_map.mp hb entry hmem
        have hentry' := proper_map.mp ha entry' (List.mem_of_getElem? hi')
        have hentry'' := proper_map.mp hc entry'' (List.mem_of_getElem? hi'')
        obtain ⟨hclear, hclear'⟩ := allFloats_map.mp hclear entry hmem
        exact ⟨(ih entry hmem).1 hentry'.1 hentry.1 hentry''.1 hclear hkey hkey',
          (ih entry hmem).2 hentry'.2 hentry.2 hentry''.2 hclear' hvalue hvalue'⟩
      | _ => simp [equal, equalWithin] at hbc
    | _ => simp [equal, equalWithin] at hab

/-! ### Where transitivity fails -/

/-- Two values that equal the given one, but not each other. -/
def Splits (b : Value) : Prop :=
  ∃ a c, Proper a ∧ Proper c ∧ equal a b ∧ equal c b ∧ ¬equal a c

/-- An ambiguous double splits two integers. -/
theorem splits_float {x : Float} (h : Ambiguous x) : Splits (.float x) := by
  obtain ⟨m, n, hne, hm, hn⟩ := h
  refine ⟨.int m, .int n, ⟨by simp, by simp⟩, ⟨by simp, by simp⟩, by simpa using hm,
    by simpa using hn, by simpa using hne⟩

/-- A list matches another one that differs at one position, when the items there are related. -/
theorem matching_set {α : Type} {R : α → α → Prop} {items : List α} {i : ℕ} {a b : α}
    (hi : items[i]? = some b) (hab : R a b) (hrefl : ∀ item ∈ items, R item item) :
    Matching R (fun j : ℕ => (items.set i a)[j]?) (fun j => items[j]?) := by
  intro j
  change Option.Rel R (items.set i a)[j]? items[j]?
  by_cases hij : i = j
  · subst hij
    have hlt : i < items.length := (List.getElem?_eq_some_iff.mp hi).1
    rw [List.getElem?_set_self hlt, hi]
    exact .some hab
  · rw [List.getElem?_set_ne hij]
    exact Matching.refl (f := fun j : ℕ => items[j]?)
      (fun j item hj => hrefl item (List.mem_of_getElem? hj)) j

/-- Two lists that differ at one position only match when the items there are related. -/
theorem rel_of_matching_set {α : Type} {R : α → α → Prop} {items : List α} {i : ℕ} {a c : α}
    (hlt : i < items.length)
    (h : Matching R (fun j : ℕ => (items.set i a)[j]?) (fun j => (items.set i c)[j]?)) : R a c := by
  obtain ⟨b, hb, hrel⟩ := h.exists_of_eq_some (List.getElem?_set_self hlt)
  rw [List.getElem?_set_self hlt, Option.some_inj] at hb
  exact hb ▸ hrel

/-- A proper sequence stays so when a proper item is put in. -/
theorem proper_set {mark : Mark} {items : List Value} {i : ℕ} {a : Value}
    (h : Proper (.array mark items)) (ha : Proper a) : Proper (.array mark (items.set i a)) := by
  refine proper_array.mpr fun item hmem => ?_
  rcases List.mem_or_eq_of_mem_set hmem with hmem | rfl
  · exact proper_array.mp h item hmem
  · exact ha

/-- A sequence splits where one of its items does. -/
theorem splits_item {mark : Mark} {items : List Value} {item : Value} (hmem : item ∈ items)
    (h : Proper (.array mark items)) (hitem : Splits item) : Splits (.array mark items) := by
  obtain ⟨a, c, ha, hc, hab, hcb, hac⟩ := hitem
  obtain ⟨i, hi⟩ := List.mem_iff_getElem?.mp hmem
  have hlt : i < items.length := (List.getElem?_eq_some_iff.mp hi).1
  have hrefl : ∀ item ∈ items, equal item item :=
    fun item hmem => equal_refl (proper_array.mp h item hmem)
  have ha' := proper_set (i := i) h ha
  have hc' := proper_set (i := i) h hc
  refine ⟨_, _, ha', hc', (equal_array_iff ha'.naNFree).mpr (matching_set hi hab hrefl),
    (equal_array_iff hc'.naNFree).mpr (matching_set hi hcb hrefl), fun hequal => hac ?_⟩
  exact rel_of_matching_set (R := (equal · ·)) hlt ((equal_array_iff ha'.naNFree).mp hequal)

/-- A map splits where a key or a value of it does. -/
theorem splits_entry {mark : Mark} {entries : List (Value × Value)} {entry : Value × Value}
    (hmem : entry ∈ entries) (h : Proper (.map mark entries))
    (hentry : Splits entry.1 ∨ Splits entry.2) : Splits (.map mark entries) := by
  obtain ⟨hkey, hvalue⟩ := proper_map.mp h entry hmem
  obtain ⟨a, c, ha, hc, hab, hcb, hac⟩ : ∃ a c : Value × Value, (Proper a.1 ∧ Proper a.2) ∧
      (Proper c.1 ∧ Proper c.2) ∧ (equal a.1 entry.1 ∧ equal a.2 entry.2) ∧
      (equal c.1 entry.1 ∧ equal c.2 entry.2) ∧ ¬(equal a.1 c.1 ∧ equal a.2 c.2) := by
    rcases hentry with ⟨a, c, ha, hc, hab, hcb, hac⟩ | ⟨a, c, ha, hc, hab, hcb, hac⟩
    · exact ⟨(a, entry.2), (c, entry.2), ⟨ha, hvalue⟩, ⟨hc, hvalue⟩, ⟨hab, equal_refl hvalue⟩,
        ⟨hcb, equal_refl hvalue⟩, fun h => hac h.1⟩
    · exact ⟨(entry.1, a), (entry.1, c), ⟨hkey, ha⟩, ⟨hkey, hc⟩, ⟨equal_refl hkey, hab⟩,
        ⟨equal_refl hkey, hcb⟩, fun h => hac h.2⟩
  obtain ⟨i, hi⟩ := List.mem_iff_getElem?.mp hmem
  have hlt : i < entries.length := (List.getElem?_eq_some_iff.mp hi).1
  have hrefl : ∀ entry ∈ entries, equal entry.1 entry.1 ∧ equal entry.2 entry.2 :=
    fun entry hmem => ⟨equal_refl (proper_map.mp h entry hmem).1,
      equal_refl (proper_map.mp h entry hmem).2⟩
  have hset : ∀ a : Value × Value, Proper a.1 ∧ Proper a.2 →
      Proper (.map mark (entries.set i a)) := by
    refine fun a ha => proper_map.mpr fun entry hmem => ?_
    rcases List.mem_or_eq_of_mem_set hmem with hmem | rfl
    · exact proper_map.mp h entry hmem
    · exact ha
  refine ⟨_, _, hset a ha, hset c hc, (equal_map_iff (hset a ha).naNFree).mpr
    (matching_set hi hab hrefl), (equal_map_iff (hset c hc).naNFree).mpr
    (matching_set hi hcb hrefl), fun hequal => hac ?_⟩
  exact rel_of_matching_set
    (R := fun left right : Value × Value => equal left.1 right.1 ∧ equal left.2 right.2) hlt
    ((equal_map_iff (hset a ha).naNFree).mp hequal)

/-- A record splits where one of its values does. -/
theorem splits_field {mark : Mark} {fields : List (String × Value)} {field : String × Value}
    (hmem : field ∈ fields) (h : Proper (.object mark fields)) (hfield : Splits field.2) :
    Splits (.object mark fields) := by
  obtain ⟨name, b⟩ := field
  obtain ⟨a, c, ha, hc, hab, hcb, hac⟩ := hfield
  obtain ⟨hkeys, hfields⟩ := proper_object.mp h
  have hfind : Keyed.find? name fields = some b := (Keyed.find?_eq_some_iff hkeys).mpr hmem
  have hkeys' : ∀ v, Keyed.keys (Keyed.insert name v fields) = Keyed.keys fields := by
    intro v
    rw [Keyed.keys_insert, Keyed.contains, hfind]
    rfl
  have hinsert : ∀ v, Proper v → Proper (.object mark (Keyed.insert name v fields)) := by
    intro v hv
    refine proper_object.mpr ⟨hkeys' v ▸ hkeys, fun field hmem => ?_⟩
    have hfind := (Keyed.find?_eq_some_iff (hkeys' v ▸ hkeys)).mpr hmem
    by_cases hname : field.1 = name
    · rw [hname, Keyed.find?_insert_self, Option.some_inj] at hfind
      exact hfind ▸ hv
    · rw [Keyed.find?_insert_ne hname] at hfind
      exact hfields field ((Keyed.find?_eq_some_iff hkeys).mp hfind)
  have hmatch : ∀ v, Proper v → equal v b →
      equal (.object mark (Keyed.insert name v fields)) (.object mark fields) := by
    intro v hv hvb
    refine (equal_object_iff (hinsert v hv).naNFree (hkeys' v ▸ hkeys) hkeys).mpr fun key => ?_
    change Option.Rel _ (Keyed.find? key (Keyed.insert name v fields)) (Keyed.find? key fields)
    by_cases hname : key = name
    · rw [hname, Keyed.find?_insert_self, hfind]
      exact .some hvb
    · rw [Keyed.find?_insert_ne hname]
      exact Matching.refl (f := (Keyed.find? · fields)) (fun key value hfind =>
        equal_refl (hfields _ ((Keyed.find?_eq_some_iff hkeys).mp hfind))) key
  refine ⟨_, _, hinsert a ha, hinsert c hc, hmatch a ha hab, hmatch c hc hcb, fun hequal => hac ?_⟩
  obtain ⟨b', hb, hrel⟩ := ((equal_object_iff (hinsert a ha).naNFree (hkeys' a ▸ hkeys)
    (hkeys' c ▸ hkeys)).mp hequal).exists_of_eq_some (Keyed.find?_insert_self ..)
  rw [Keyed.find?_insert_self, Option.some_inj] at hb
  exact hb ▸ hrel

/-- A value that holds an ambiguous number equals two values that differ. -/
theorem splits_of_part {b : Value} (hb : Proper b) {x : Float} (hpart : Part (.float x) b)
    (hambiguous : Ambiguous x) : Splits b := by
  induction hpart with
  | self => exact splits_float hambiguous
  | item hmem _ ih => exact splits_item hmem hb (ih (proper_array.mp hb _ hmem))
  | field hmem _ ih => exact splits_field hmem hb (ih ((proper_object.mp hb).2 _ hmem))
  | key hmem _ ih => exact splits_entry hmem hb (.inl (ih (proper_map.mp hb _ hmem).1))
  | entry hmem _ ih => exact splits_entry hmem hb (.inr (ih (proper_map.mp hb _ hmem).2))

/-! ### Loose equality -/

/-- Proper values equal each other in both orders alike. -/
theorem equal_comm {a b : Value} (ha : Proper a) (hb : Proper b) : equal a b = equal b a :=
  Bool.eq_iff_iff.mpr ⟨equal_symm ha hb, equal_symm hb ha⟩

/-- Proper values equal each other loosely in both orders alike. -/
theorem looselyEqual_comm {a b : Value} (ha : Proper a) (hb : Proper b) :
    looselyEqual a b = looselyEqual b a := by
  have hequal := equal_comm ha hb
  have hnumber : (a.toNumber == b.toNumber) = (b.toNumber == a.toNumber) := Number.beq_comm ..
  cases a <;> cases b <;> simp only [looselyEqual, isScalar, Bool.and_self, Bool.and_true,
    Bool.and_false, Bool.false_eq_true, if_true, if_false] <;>
    first | exact hequal | exact hnumber | exact BEq.comm

/-- Equal values are loosely equal. -/
theorem looselyEqual_of_equal {a b : Value} (h : equal a b) : looselyEqual a b := by
  cases a with
  | bool p =>
    cases b with
    | bool q =>
      obtain rfl : p = q := by simpa [equal, equalWithin] using h
      cases p <;> rfl
    | _ => simp [equal, equalWithin] at h
  | _ => cases b <;> simp_all [equal, equalWithin, looselyEqual]

/-- Among values without anything that should be a number and is none, strict equality is reflexive
and symmetric. It is transitive through a value exactly when the value holds no number that two
different integers become, and small numbers are none of these. Loose equality is symmetric and
implied by strict equality. -/
theorem equal_laws :
    (∀ a, Proper a → equal a a) ∧
      (∀ a b, Proper a → Proper b → equal a b = equal b a) ∧
      (∀ b, Proper b →
        ((∀ a c, Proper a → Proper c → equal a b → equal b c → equal a c) ↔
          ∀ x, Part (.float x) b → ¬Ambiguous x)) ∧
      (∀ x q, Number.value x = some q → |q| < 2 ^ 53 → ¬Ambiguous x) ∧
      (∀ a b, Proper a → Proper b → looselyEqual a b = looselyEqual b a) ∧
      ∀ a b, equal a b → looselyEqual a b := by
  refine ⟨fun a => equal_refl, fun a b => equal_comm, fun b hb => ⟨?_, ?_⟩,
    fun x q => not_ambiguous, fun a b => looselyEqual_comm, fun a b => looselyEqual_of_equal⟩
  · intro htrans x hpart hambiguous
    obtain ⟨a, c, ha, hc, hab, hcb, hac⟩ := splits_of_part hb hpart hambiguous
    exact hac (htrans a c ha hc hab (equal_symm hc hb hcb))
  · intro hclear a c ha hc hab hbc
    refine equal_trans ha hb hc ?_ hab hbc
    rintro _ hpart x rfl
    exact hclear x hpart

/-- A small number holds two sequences together. -/
theorem equal_laws_array :
    let a : Value := .array (.outer 0) [.int 1]
    let b : Value := .array (.outer 1) [.float (Number.ofWord 1)]
    Proper a ∧ Proper b ∧ equal a b ∧ equal b a ∧ equal a a ∧ looselyEqual b a := by
  intro a b
  obtain ⟨-, hcomm, htrans, hsmall, -, hloose⟩ := equal_laws
  have hvalue : Number.value (Number.ofWord 1) = some 1 := by
    rw [Number.value_ofWord, Number.rounded_of_natAbs_lt (by decide)]
    rfl
  have ha : Proper a := proper_array.mpr (by simpa using ⟨by simp, by simp⟩)
  have hb : Proper b := by
    refine proper_array.mpr (List.forall_mem_singleton.mpr ⟨?_, wellFormed_scalar rfl⟩)
    exact allFloats_float.mpr (Number.isNaN_of_value hvalue)
  have hab : equal a b := by
    have hone := (Number.beq_iff hvalue hvalue).mpr rfl
    simpa [a, b, equal, equalWithin, equalItems] using hone
  have hba : equal b a := hcomm a b ha hb ▸ hab
  have hclear : ∀ x, Part (.float x) b → ¬Ambiguous x := by
    intro x hpart
    change Part _ (.array (.outer 1) [.float (Number.ofWord 1)]) at hpart
    cases hpart with
    | item hmem hpart =>
      rw [List.mem_singleton.mp hmem] at hpart
      cases hpart
      exact hsmall _ 1 hvalue (by norm_num)
  exact ⟨ha, hb, hab, hba, (htrans b hb).mpr hclear a a ha ha hab hba, hloose b a hba⟩

/-- Two integers equal the number that they become, but not each other. -/
theorem not_equal_trans :
    let b : Value := .float (Float.ofBits 0x4340000000000000)
    Proper (.int 9007199254740992) ∧ Proper b ∧ Proper (.int 9007199254740993) ∧
      equal (.int 9007199254740992) b = true ∧ equal b (.int 9007199254740993) = true ∧
        equal (.int 9007199254740992) (.int 9007199254740993) = false := by
  intro b
  refine ⟨⟨by simp, by simp⟩, ⟨allFloats_float.mpr rfl, wellFormed_scalar rfl⟩,
    ⟨by simp, by simp⟩, ?_, ?_, ?_⟩
  · rw [equal_int_float]
    rfl
  · rw [equal_float_int]
    rfl
  · rw [equal_int_int]
    rfl

end Value

end Stencil
