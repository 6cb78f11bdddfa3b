import Stencil.Operation
import Stencil.Proofs.Documents
import Stencil.Proofs.Simulation

/-!
# Marks that tell

Equality looks at the mark of a container only where the container holds what should be a number and
is none. So when these marks are seen, and of all others no more than whether a container is new,
two values that look alike are not told apart by any equality. A method is discreet when it does not
tell them apart either: its answers to arguments that look alike look alike. All methods that an
engine starts with are discreet, the comparisons among them.

## Main definitions

* `Sight.telling`: the marks that equality looks at.
* `Method.Discreet`: the methods that look at no other marks.

## Main results

* `Value.indistinct_seen`: equality treats a value and what is seen of it alike.
* `Value.Alike.marked`: values that look alike do so when their new containers are marked.
* `Value.alike_of_unmarked`: values without marks that tell look alike when they hold the same.
* `Operations.discreet_builtin`: the methods that an engine starts with are discreet.
-/

namespace Stencil

/-! ### Marks that equality looks at -/

namespace Sight

/-- The marks that tell are seen: those of containers that hold what is no number. Of other
containers it is seen whether they are new. -/
def telling : Sight where
  mark
    | true, mark => mark
    | false, .new => .new
    | false, _ => .outer 0
  mark_new holdsNaN := by cases holdsNaN <;> rfl

@[simp] theorem telling_mark_true (mark : Mark) : telling.mark true mark = mark := rfl

/-- Of a container whose mark does not tell it is seen that it is not new. -/
theorem telling_mark_false {mark : Mark} (h : mark ≠ .new) :
    telling.mark false mark = .outer 0 := by
  cases mark with
  | new => exact absurd rfl h
  | outer | made => rfl

/-- Only new containers look new. -/
theorem telling_mark_ne_new {mark : Mark} (h : mark ≠ .new) (holdsNaN : Bool) :
    telling.mark holdsNaN mark ≠ .new := by
  cases holdsNaN with
  | true => exact h
  | false => exact telling_mark_false h ▸ nofun

/-- To see a mark twice is to see it once. -/
@[simp] theorem telling_mark_mark (holdsNaN : Bool) (mark : Mark) :
    telling.mark holdsNaN (telling.mark holdsNaN mark) = telling.mark holdsNaN mark := by
  cases holdsNaN with
  | true => rfl
  | false => cases mark <;> rfl

end Sight

namespace Value

variable {marks : Sight}

/-- What every member decides alike, a list decides alike. -/
theorem any_congr_of_mem {α : Type} {p q : α → Bool} {as : List α} (h : ∀ a ∈ as, p a = q a) :
    as.any p = as.any q := by
  rw [Bool.eq_iff_iff, List.any_eq_true, List.any_eq_true]
  exact exists_congr fun a => and_congr_right fun hmem => by rw [h a hmem]

/-- What is no number is seen. -/
@[simp] theorem holdsNaN_seen (v : Value) : (v.seen marks).holdsNaN = v.holdsNaN := by
  induction v using induction_on with
  | null | bool | int | float | string => rfl
  | array mark items ih =>
    rw [seen_array, holdsNaN_array, holdsNaN_array, List.any_map]
    exact any_congr_of_mem ih
  | object mark fields ih =>
    rw [seen_object, holdsNaN_object, holdsNaN_object, Keyed.mapValues, List.any_map]
    exact any_congr_of_mem ih
  | map mark entries ih =>
    rw [seen_map, holdsNaN_map, holdsNaN_map, List.any_map]
    exact any_congr_of_mem fun entry hmem => congrArg₂ or (ih entry hmem).1 (ih entry hmem).2

/-- Such a thing is held exactly where not all that should be a number is one. -/
theorem naNFree_iff {v : Value} : NaNFree v ↔ v.holdsNaN = false := by
  induction v using induction_on with
  | null | bool | int | string => exact iff_of_true ((throughout_scalar rfl).mpr nofun) rfl
  | float x => exact allFloats_float
  | array mark items ih =>
    rw [NaNFree, allFloats_array, holdsNaN_array, List.any_eq_false]
    exact forall₂_congr fun item hmem => (ih item hmem).trans (by simp)
  | object mark fields ih =>
    rw [NaNFree, allFloats_object, holdsNaN_object, List.any_eq_false]
    exact forall₂_congr fun field hmem => (ih field hmem).trans (by simp)
  | map mark entries ih =>
    rw [NaNFree, allFloats_map, holdsNaN_map, List.any_eq_false]
    refine forall₂_congr fun entry hmem => ?_
    exact (and_congr (ih entry hmem).1 (ih entry hmem).2).trans (by simp)

/-- What is seen of a value is the value but for its marks. -/
@[simp] theorem unmarked_seen (v : Value) : (v.seen marks).unmarked = v.unmarked := by
  induction v using induction_on with
  | null | bool | int | float | string => rfl
  | array mark items ih =>
    rw [seen_array, unmarked_array, unmarked_array, List.map_map]
    exact congrArg _ (List.map_congr_left ih)
  | object mark fields ih =>
    rw [seen_object, unmarked_object, unmarked_object, Keyed.mapValues_mapValues]
    exact congrArg _ (List.map_congr_left fun field hmem => congrArg (field.1, ·) (ih field hmem))
  | map mark entries ih =>
    rw [seen_map, unmarked_map, unmarked_map, List.map_map]
    exact congrArg _ (List.map_congr_left fun entry hmem =>
      Prod.ext (ih entry hmem).1 (ih entry hmem).2)

/-- To see twice is to see once. -/
@[simp] theorem seen_seen (v : Value) : (v.seen .telling).seen .telling = v.seen .telling := by
  induction v using induction_on with
  | null | bool | int | float | string => rfl
  | array mark items ih =>
    have hholds := @holdsNaN_seen .telling (.array mark items)
    rw [seen_array, holdsNaN_array, holdsNaN_array] at hholds
    rw [seen_array, seen_array, hholds, Sight.telling_mark_mark, List.map_map]
    exact congrArg _ (List.map_congr_left ih)
  | object mark fields ih =>
    have hholds := @holdsNaN_seen .telling (.object mark fields)
    rw [seen_object, holdsNaN_object, holdsNaN_object] at hholds
    rw [seen_object, seen_object, hholds, Sight.telling_mark_mark, Keyed.mapValues_mapValues]
    exact congrArg _ (List.map_congr_left fun field hmem => congrArg (field.1, ·) (ih field hmem))
  | map mark entries ih =>
    have hholds := @holdsNaN_seen .telling (.map mark entries)
    rw [seen_map, holdsNaN_map, holdsNaN_map] at hholds
    rw [seen_map, seen_map, hholds, Sight.telling_mark_mark, List.map_map]
    exact congrArg _ (List.map_congr_left fun entry hmem =>
      Prod.ext (ih entry hmem).1 (ih entry hmem).2)

/-- Sequences with one mark look alike when their items do. -/
theorem alike_array {mark : Mark} {items items' : List Value}
    (h : items.map (seen marks) = items'.map (seen marks)) :
    (Value.array mark items).Alike marks (.array mark items') := by
  have hholds := congrArg (List.any · holdsNaN) h
  simp only [List.any_map, Function.comp_def, holdsNaN_seen] at hholds
  rw [Alike, seen_array, seen_array, hholds, h]

/-- Records with one mark look alike when their fields do. -/
theorem alike_object {mark : Mark} {fields fields' : List (String × Value)}
    (h : Keyed.mapValues (seen marks) fields = Keyed.mapValues (seen marks) fields') :
    (Value.object mark fields).Alike marks (.object mark fields') := by
  have hholds := congrArg (List.any · fun field => field.2.holdsNaN) h
  simp only [Keyed.mapValues, List.any_map, Function.comp_def, holdsNaN_seen] at hholds
  rw [Alike, seen_object, seen_object, hholds, h]

/-- Maps with one mark look alike when their entries do. -/
theorem alike_map {mark : Mark} {entries entries' : List (Value × Value)}
    (h : entries.map (Prod.map (seen marks) (seen marks)) =
      entries'.map (Prod.map (seen marks) (seen marks))) :
    (Value.map mark entries).Alike marks (.map mark entries') := by
  have hholds := congrArg (List.any · fun entry => entry.1.holdsNaN || entry.2.holdsNaN) h
  simp only [List.any_map, Function.comp_def, Prod.map, holdsNaN_seen] at hholds
  rw [Alike, seen_map, seen_map, hholds, h]

/-! ### Marking new containers -/

section Marked

variable {mark : Mark} (h : mark ≠ .new) (run : Nat)
include h

/-- A sequence that is not new is left alone. -/
theorem marked_array (items : List Value) (number : Nat) :
    marked run (.array mark items) number = (.array mark items, number) := by
  cases mark with
  | new => exact absurd rfl h
  | outer | made => rfl

/-- A record that is not new is left alone. -/
theorem marked_object (fields : List (String × Value)) (number : Nat) :
    marked run (.object mark fields) number = (.object mark fields, number) := by
  cases mark with
  | new => exact absurd rfl h
  | outer | made => rfl

/-- A map that is not new is left alone. -/
theorem marked_map (entries : List (Value × Value)) (number : Nat) :
    marked run (.map mark entries) number = (.map mark entries, number) := by
  cases mark with
  | new => exact absurd rfl h
  | outer | made => rfl

end Marked

mutual

/-- Marking what is seen of a value leads to what is seen of marking the value, and takes as many
numbers. -/
theorem marked_seen (run : Nat) : ∀ (v : Value) (number : Nat),
    (marked run (v.seen .telling) number).1.Alike .telling (marked run v number).1 ∧
      (marked run (v.seen .telling) number).2 = (marked run v number).2
  | .array mark items, number => by
    by_cases h : mark = .new
    · subst h
      obtain ⟨hitems, hnext⟩ := markedItems_seen run items (number + 1)
      rw [seen_array, Sight.mark_new]
      exact ⟨alike_array hitems, hnext⟩
    · rw [marked_array h, seen_array, marked_array (Sight.telling_mark_ne_new h _), ← seen_array]
      exact ⟨seen_seen _, rfl⟩
  | .object mark fields, number => by
    by_cases h : mark = .new
    · subst h
      obtain ⟨hfields, hnext⟩ := markedFields_seen run fields (number + 1)
      rw [seen_object, Sight.mark_new]
      exact ⟨alike_object hfields, hnext⟩
    · rw [marked_object h, seen_object, marked_object (Sight.telling_mark_ne_new h _),
        ← seen_object]
      exact ⟨seen_seen _, rfl⟩
  | .map mark entries, number => by
    by_cases h : mark = .new
    · subst h
      obtain ⟨hentries, hnext⟩ := markedEntries_seen run entries (number + 1)
      rw [seen_map, Sight.mark_new]
      exact ⟨alike_map hentries, hnext⟩
    · rw [marked_map h, seen_map, marked_map (Sight.telling_mark_ne_new h _), ← seen_map]
      exact ⟨seen_seen _, rfl⟩
  | .null, _ | .bool _, _ | .int _, _ | .float _, _ | .string _, _ => ⟨rfl, rfl⟩

/-- The same of the items of a sequence. -/
theorem markedItems_seen (run : Nat) : ∀ (items : List Value) (number : Nat),
    (markedItems run (items.map (seen .telling)) number).1.map (seen .telling) =
        (markedItems run items number).1.map (seen .telling) ∧
      (markedItems run (items.map (seen .telling)) number).2 = (markedItems run items number).2
  | [], _ => ⟨rfl, rfl⟩
  | item :: items, number => by
    obtain ⟨hitem, hnext⟩ := marked_seen run item number
    obtain ⟨hitems, hlast⟩ := markedItems_seen run items (marked run item number).2
    simp only [List.map_cons, markedItems, hnext, hlast, hitems, and_true]
    exact congrArg (· :: _) hitem

/-- The same of the fields of a record. -/
theorem markedFields_seen (run : Nat) : ∀ (fields : List (String × Value)) (number : Nat),
    Keyed.mapValues (seen .telling)
        (markedFields run (Keyed.mapValues (seen .telling) fields) number).1 =
        Keyed.mapValues (seen .telling) (markedFields run fields number).1 ∧
      (markedFields run (Keyed.mapValues (seen .telling) fields) number).2 =
        (markedFields run fields number).2
  | [], _ => ⟨rfl, rfl⟩
  | (name, value) :: fields, number => by
    obtain ⟨hvalue, hnext⟩ := marked_seen run value number
    obtain ⟨hfields, hlast⟩ := markedFields_seen run fields (marked run value number).2
    simp only [Keyed.mapValues_cons, markedFields, hnext, hlast, hfields, and_true]
    exact congrArg (fun value => (name, value) :: _) hvalue

/-- The same of the entries of a map. -/
theorem markedEntries_seen (run : Nat) : ∀ (entries : List (Value × Value)) (number : Nat),
    (markedEntries run (entries.map (Prod.map (seen .telling) (seen .telling))) number).1.map
          (Prod.map (seen .telling) (seen .telling)) =
        (markedEntries run entries number).1.map (Prod.map (seen .telling) (seen .telling)) ∧
      (markedEntries run (entries.map (Prod.map (seen .telling) (seen .telling))) number).2 =
        (markedEntries run entries number).2
  | [], _ => ⟨rfl, rfl⟩
  | (key, value) :: entries, number => by
    obtain ⟨hkey, hnext⟩ := marked_seen run key number
    obtain ⟨hvalue, hnext'⟩ := marked_seen run value (marked run key number).2
    obtain ⟨hentries, hlast⟩ :=
      markedEntries_seen run entries (marked run value (marked run key number).2).2
    simp only [List.map_cons, Prod.map, markedEntries, hnext, hnext', hlast, hentries, and_true]
    exact congrArg₂ (fun key value => (key, value) :: _) hkey hvalue

end

/-- Values that look alike do so when their new containers are marked, which takes as many
numbers. -/
theorem Alike.marked {v w : Value} (h : v.Alike .telling w) (run number : Nat) :
    (v.marked run number).1.Alike .telling (w.marked run number).1 ∧
      (v.marked run number).2 = (w.marked run number).2 := by
  obtain ⟨hv, hv'⟩ := marked_seen run v number
  obtain ⟨hw, hw'⟩ := marked_seen run w number
  have h : v.seen .telling = w.seen .telling := h
  rw [h] at hv hv'
  exact ⟨hv.symm.trans hw, hv'.symm.trans hw'⟩

/-! ### Values that are settled -/

/-- No container that the value holds is new. -/
def Settled : Value → Prop :=
  Throughout fun p => (∀ items, p ≠ .array .new items) ∧ (∀ fields, p ≠ .object .new fields) ∧
    ∀ entries, p ≠ .map .new entries

/-- What has no parts is settled. -/
theorem settled_scalar {v : Value} (h : v.isScalar || v.isNull) : Settled v := by
  refine (throughout_scalar h).mpr ⟨?_, ?_, ?_⟩ <;>
  · rintro parts rfl
    cases h

/-- A sequence is settled when it has a mark and its items are settled. -/
@[simp] theorem settled_array {mark : Mark} {items : List Value} :
    Settled (.array mark items) ↔ mark ≠ .new ∧ ∀ item ∈ items, Settled item := by
  rw [Settled, throughout_array]
  simp

/-- A record is settled when it has a mark and its fields are settled. -/
@[simp] theorem settled_object {mark : Mark} {fields : List (String × Value)} :
    Settled (.object mark fields) ↔ mark ≠ .new ∧ ∀ field ∈ fields, Settled field.2 := by
  rw [Settled, throughout_object]
  simp

/-- A map is settled when it has a mark and its keys and values are settled. -/
@[simp] theorem settled_map {mark : Mark} {entries : List (Value × Value)} :
    Settled (.map mark entries) ↔
      mark ≠ .new ∧ ∀ entry ∈ entries, Settled entry.1 ∧ Settled entry.2 := by
  rw [Settled, throughout_map]
  simp

mutual

/-- What has been made anew is settled once it is marked. -/
theorem settled_marked (run : Nat) : ∀ (v : Value) (number : Nat),
    Settled (marked run v.unmarked number).1
  | .array _ items, number => by
    rw [unmarked_array]
    exact settled_array.mpr ⟨nofun, settled_markedItems run items _⟩
  | .object _ fields, number => by
    rw [unmarked_object]
    exact settled_object.mpr ⟨nofun, settled_markedFields run fields _⟩
  | .map _ entries, number => by
    rw [unmarked_map]
    exact settled_map.mpr ⟨nofun, settled_markedEntries run entries _⟩
  | .null, _ | .bool _, _ | .int _, _ | .float _, _ | .string _, _ =>
    settled_scalar rfl

/-- The same of items. -/
theorem settled_markedItems (run : Nat) : ∀ (items : List Value) (number : Nat),
    ∀ item ∈ (markedItems run (items.map unmarked) number).1, Settled item
  | [], _ => nofun
  | item :: items, _ =>
    List.forall_mem_cons.mpr ⟨settled_marked run item _, settled_markedItems run items _⟩

/-- The same of fields. -/
theorem settled_markedFields (run : Nat) : ∀ (fields : List (String × Value)) (number : Nat),
    ∀ field ∈ (markedFields run (Keyed.mapValues unmarked fields) number).1, Settled field.2
  | [], _ => nofun
  | (_, value) :: fields, _ =>
    List.forall_mem_cons.mpr ⟨settled_marked run value _, settled_markedFields run fields _⟩

/-- The same of entries. -/
theorem settled_markedEntries (run : Nat) : ∀ (entries : List (Value × Value)) (number : Nat),
    ∀ entry ∈ (markedEntries run (entries.map (Prod.map unmarked unmarked)) number).1,
      Settled entry.1 ∧ Settled entry.2
  | [], _ => nofun
  | (key, value) :: entries, _ =>
    List.forall_mem_cons.mpr ⟨⟨settled_marked run key _, settled_marked run value _⟩,
      settled_markedEntries run entries _⟩

end

/-- Lists that one function does not tell apart are not told apart by one that it determines. -/
theorem map_eq_map_of_imp {α β γ : Type} {f : α → β} {g : α → γ} {as bs : List α}
    (h : as.map f = bs.map f) (hfg : ∀ a ∈ as, ∀ b ∈ bs, f a = f b → g a = g b) :
    as.map g = bs.map g := by
  induction as generalizing bs with
  | nil =>
    cases bs with
    | nil => rfl
    | cons b bs => cases h
  | cons a as ih =>
    cases bs with
    | nil => cases h
    | cons b bs =>
      obtain ⟨hab, hrest⟩ := List.cons.inj h
      have hg := hfg a List.mem_cons_self b List.mem_cons_self hab
      rw [List.map_cons, List.map_cons, hg, ih hrest fun a ha b hb =>
        hfg a (List.mem_cons_of_mem _ ha) b (List.mem_cons_of_mem _ hb)]

/-- A sequence whose mark neither tells nor is new. -/
theorem seen_array_of_settled {mark : Mark} {items : List Value}
    (hnan : (Value.array mark items).holdsNaN = false) (h : mark ≠ .new) :
    (Value.array mark items).seen .telling = .array (.outer 0) (items.map (seen .telling)) := by
  rw [holdsNaN_array] at hnan
  rw [seen_array, hnan, Sight.telling_mark_false h]

/-- A record whose mark neither tells nor is new. -/
theorem seen_object_of_settled {mark : Mark} {fields : List (String × Value)}
    (hnan : (Value.object mark fields).holdsNaN = false) (h : mark ≠ .new) :
    (Value.object mark fields).seen .telling =
      .object (.outer 0) (Keyed.mapValues (seen .telling) fields) := by
  rw [holdsNaN_object] at hnan
  rw [seen_object, hnan, Sight.telling_mark_false h]

/-- A map whose mark neither tells nor is new. -/
theorem seen_map_of_settled {mark : Mark} {entries : List (Value × Value)}
    (hnan : (Value.map mark entries).holdsNaN = false) (h : mark ≠ .new) :
    (Value.map mark entries).seen .telling =
      .map (.outer 0) (entries.map (Prod.map (seen .telling) (seen .telling))) := by
  rw [holdsNaN_map] at hnan
  rw [seen_map, hnan, Sight.telling_mark_false h]

/-- Where no mark tells and nothing is new, values look alike that are the same but for marks. -/
theorem alike_of_unmarked {v w : Value} (hnan : NaNFree v) (hv : v.Settled) (hw : w.Settled)
    (h : v.unmarked = w.unmarked) : v.Alike .telling w := by
  have hnan' : NaNFree w := by
    have hsame := congrArg holdsNaN h
    rw [unmarked, unmarked, holdsNaN_seen, holdsNaN_seen] at hsame
    exact naNFree_iff.mpr (hsame.symm.trans (naNFree_iff.mp hnan))
  induction v using induction_on generalizing w with
  | null | bool | int | float | string =>
    cases w with
    | null | bool | int | float | string => exact h
    | array | object | map => simp [unmarked] at h
  | array mark items ih =>
    cases w with
    | null | bool | int | float | string | object | map => simp [unmarked] at h
    | array mark' items' =>
      rw [unmarked_array, unmarked_array] at h
      obtain ⟨hmark, hitems⟩ := settled_array.mp hv
      obtain ⟨hmark', hitems'⟩ := settled_array.mp hw
      rw [Alike, seen_array_of_settled (naNFree_iff.mp hnan) hmark,
        seen_array_of_settled (naNFree_iff.mp hnan') hmark']
      refine congrArg _ (map_eq_map_of_imp (array.inj h).2 fun item hmem item' hmem' hitem => ?_)
      exact ih item hmem (allFloats_array.mp hnan item hmem) (hitems item hmem)
        (hitems' item' hmem') hitem (allFloats_array.mp hnan' item' hmem')
  | object mark fields ih =>
    cases w with
    | null | bool | int | float | string | array | map => simp [unmarked] at h
    | object mark' fields' =>
      rw [unmarked_object, unmarked_object] at h
      obtain ⟨hmark, hfields⟩ := settled_object.mp hv
      obtain ⟨hmark', hfields'⟩ := settled_object.mp hw
      rw [Alike, seen_object_of_settled (naNFree_iff.mp hnan) hmark,
        seen_object_of_settled (naNFree_iff.mp hnan') hmark']
      refine congrArg _ (map_eq_map_of_imp (object.inj h).2 fun field hmem field'
        hmem' hfield => ?_)
      obtain ⟨hname, hvalue⟩ := Prod.mk.inj hfield
      exact Prod.ext hname (ih field hmem (allFloats_object.mp hnan field hmem) (hfields field hmem)
        (hfields' field' hmem') hvalue
        (allFloats_object.mp hnan' field' hmem'))
  | map mark entries ih =>
    cases w with
    | null | bool | int | float | string | array | object => simp [unmarked] at h
    | map mark' entries' =>
      rw [unmarked_map, unmarked_map] at h
      obtain ⟨hmark, hentries⟩ := settled_map.mp hv
      obtain ⟨hmark', hentries'⟩ := settled_map.mp hw
      rw [Alike, seen_map_of_settled (naNFree_iff.mp hnan) hmark,
        seen_map_of_settled (naNFree_iff.mp hnan') hmark']
      refine congrArg _ (map_eq_map_of_imp (map.inj h).2 fun entry hmem entry' hmem' hentry => ?_)
      obtain ⟨hkey, hvalue⟩ := Prod.mk.inj hentry
      obtain ⟨hfree, hfree'⟩ := allFloats_map.mp hnan entry hmem
      obtain ⟨hsettled, hsettled'⟩ := hentries entry hmem
      obtain ⟨hset, hset'⟩ := hentries' entry' hmem'
      obtain ⟨hnew, hnew'⟩ := allFloats_map.mp hnan' entry' hmem'
      exact Prod.ext ((ih entry hmem).1 hfree hsettled hset hkey hnew)
        ((ih entry hmem).2 hfree' hsettled' hset' hvalue hnew')

/-! ### Equality -/

/-- Equality treats a value and what is seen of it alike, when the marks that tell are seen. -/
theorem indistinct_seen (v : Value) (same : Bool) :
    Indistinct same same v (v.seen .telling) := by
  -- A container whose mark does not tell is the same without marks to an equality.
  have hfree : ∀ v : Value, v.holdsNaN = false → ∀ same,
      Indistinct same same v (v.seen .telling) := by
    intro v hv same
    have hseen : (v.seen .telling).holdsNaN = false := (holdsNaN_seen v).trans hv
    have hmarkless := markless_of_naNFree (naNFree_iff.mpr hv) same same
    have hmarkless' := markless_of_naNFree (naNFree_iff.mpr hseen) same same
    rw [unmarked_seen] at hmarkless'
    exact ⟨fun w => (hmarkless.left w).trans (hmarkless'.left w).symm,
      fun w => (hmarkless.right w).trans (hmarkless'.right w).symm⟩
  induction v using induction_on generalizing same with
  | null | bool | int | float | string => exact ⟨fun _ => rfl, fun _ => rfl⟩
  | array mark items ih =>
    cases hholds : (Value.array mark items).holdsNaN with
    | false => exact hfree _ hholds same
    | true =>
      rw [holdsNaN_array] at hholds
      rw [seen_array, hholds, Sight.telling_mark_true]
      constructor <;> intro w <;> cases w <;> simp only [equalWithin]
      · exact (equalItems_map _ (fun item hmem => ih item hmem _) _).1
      · exact (equalItems_map _ (fun item hmem => ih item hmem _) _).2
  | object mark fields ih =>
    cases hholds : (Value.object mark fields).holdsNaN with
    | false => exact hfree _ hholds same
    | true =>
      rw [holdsNaN_object] at hholds
      rw [seen_object, hholds, Sight.telling_mark_true]
      constructor <;> intro w <;> cases w <;> simp only [equalWithin]
      · exact (equalFields_mapValues _ (fun field hmem => ih field hmem _) _).1
      · exact (equalFields_mapValues _ (fun field hmem => ih field hmem _) _).2
  | map mark entries ih =>
    cases hholds : (Value.map mark entries).holdsNaN with
    | false => exact hfree _ hholds same
    | true =>
      rw [holdsNaN_map] at hholds
      rw [seen_map, hholds, Sight.telling_mark_true]
      constructor <;> intro w <;> cases w <;> simp only [equalWithin]
      · exact (equalEntries_map _ (fun entry hmem =>
          ⟨(ih entry hmem).1 _, (ih entry hmem).2 _⟩) _).1
      · exact (equalEntries_map _ (fun entry hmem =>
          ⟨(ih entry hmem).1 _, (ih entry hmem).2 _⟩) _).2

/-- No strict equality tells values from what is seen of them. -/
theorem equal_seen (v w : Value) : equal (v.seen .telling) (w.seen .telling) = equal v w := by
  rw [equal, ← (indistinct_seen v false).left, ← (indistinct_seen w false).right]

/-- No number tells values from what is seen of them. -/
@[simp] theorem toNumber_seen (v : Value) : (v.seen marks).toNumber = v.toNumber := by
  induction v using induction_on with
  | null | bool | int | float | string => rfl
  | array mark items ih =>
    rw [seen_array]
    match items, ih with
    | [], _ => rfl
    | [item], ih => exact ih item List.mem_cons_self
    | _ :: _ :: _, _ => rfl
  | object | map => simp [toNumber]

/-- No loose equality tells values from what is seen of them. -/
theorem looselyEqual_seen (v w : Value) :
    looselyEqual (v.seen .telling) (w.seen .telling) = looselyEqual v w := by
  have hequal := equal_seen v w
  have hnumber := @toNumber_seen .telling v
  have hnumber' := @toNumber_seen .telling w
  cases v <;> cases w <;> simp_all [looselyEqual, isScalar]

/-- No order tells values from what is seen of them. -/
theorem order_seen (v w : Value) : order (v.seen marks) (w.seen marks) = order v w := by
  have hnumber := @toNumber_seen marks v
  have hnumber' := @toNumber_seen marks w
  cases v <;> cases w <;> simp_all [order]

/-- The document of a value shows no marks. -/
@[simp] theorem document_seen (v : Value) : (v.seen marks).document = v.document := by
  induction v using induction_on with
  | null | bool | int | float | string => rfl
  | array mark items ih =>
    rw [seen_array, document, document, documentItems_eq_map, documentItems_eq_map, List.map_map]
    exact congrArg _ (List.map_congr_left ih)
  | object mark fields ih =>
    rw [seen_object, document, document, documentFields_eq_mapValues, documentFields_eq_mapValues,
      Keyed.mapValues_mapValues]
    have hfields : Keyed.mapValues (fun v => (v.seen marks).document) fields =
        Keyed.mapValues document fields :=
      List.map_congr_left fun field hmem => congrArg (field.1, ·) (ih field hmem)
    rw [hfields]
  | map mark entries ih =>
    have hnamed : named (entries.map (Prod.map (seen marks) (seen marks))) =
        Keyed.mapValues (seen marks) (named entries) := by
      simp [named, Keyed.mapValues]
    have hentries : Keyed.mapValues (fun v => (v.seen marks).document) (named entries) =
        Keyed.mapValues document (named entries) := by
      refine List.map_congr_left fun field hmem => ?_
      obtain ⟨entry, hentry, rfl⟩ := List.mem_map.mp hmem
      exact congrArg (keyText entry.1, ·) (ih entry hentry).2
    rw [seen_map, document, document, documentEntries_eq, documentEntries_eq, hnamed,
      Keyed.mapValues_mapValues, hentries]

/-- Nor does the data text of what a data text stands for. -/
theorem data_plain_seen (v : Value) : (v.seen marks).plain.data = v.plain.data := by
  have h : ∀ v : Value, v.plain.data = v.document.value.data := fun v => by
    rw [value_document, unmarked, (texts_seen _).2]
  rw [h, h, document_seen]

/-- A number that is made from a double has no marks. -/
@[simp] theorem seen_ofFloat (x : Float) : (ofFloat x).seen marks = ofFloat x := by
  unfold ofFloat
  cases Number.toWord? x <;> rfl

/-- The name of a type does not depend on marks. -/
@[simp] theorem typeName_seen (v : Value) : (v.seen marks).typeName = v.typeName := by
  cases v <;> simp [typeName]

/-- The fields of a record are seen as the record is. -/
theorem fields?_seen (v : Value) :
    (v.seen marks).fields? = v.fields?.map (Keyed.mapValues (seen marks)) := by
  cases v <;> simp [fields?]

/-- What a dotted path leads to is seen as the value is. -/
theorem readDotted_seen (v : Value) (path : String) :
    (v.seen marks).readDotted path = (v.readDotted path).seen marks := by
  unfold readDotted
  split
  · rfl
  · exact read_seen v _

end Value

/-! ### Methods that look at no more -/

/-- The method tells arguments apart by no marks but those that equality looks at: its answers to
arguments that look alike look alike. -/
def Method.Discreet (m : Method) : Prop :=
  ∀ args args', args.Alike .telling args' → (m.run args).Same .telling (m.run args')

/-- The answer to what is seen of arguments is what is seen of the answer to them. -/
def SeesThrough (f : Arguments → Value) : Prop :=
  ∀ args, f (args.seen .telling) = (f args).seen .telling

namespace Arguments

variable {marks : Sight}

/-- What is seen of an argument is an argument of what is seen. -/
@[simp] theorem get_seen (args : Arguments) (index : Nat) :
    (args.seen marks).get index = (args.get index).seen marks := by
  simp only [get, seen, List.getElem?_map]
  cases args.positional[index]? <;> rfl

end Arguments

namespace Builtin

open Value (seen)

variable {marks : Sight} (args : Arguments)

/-- The words among the arguments do not depend on marks. -/
@[simp] theorem words?_seen : words? (args.seen marks) = words? args := by
  simp [words?, Arguments.seen, List.mapM_map, Function.comp_def]

/-- The numbers among the arguments do not depend on marks. -/
@[simp] theorem numbers_seen : numbers (args.seen marks) = numbers args := by
  simp [numbers, Arguments.seen, Function.comp_def]

/-- A result in words or in doubles has no marks. -/
@[simp] theorem seen_wordsOr (exact : Option Int64) (float : Float) :
    (wordsOr exact float).seen marks = wordsOr exact float := by
  cases exact <;> simp [wordsOr]

/-- A fold over numbers does not depend on marks. -/
@[simp] theorem foldNumbers_seen (op : Float → Float → Float) :
    foldNumbers op (args.seen marks) = (foldNumbers op args).seen marks := by
  simp only [foldNumbers, numbers_seen]
  cases numbers args <;> simp

/-- A sum does not depend on marks. -/
theorem add_seen : add (args.seen marks) = (add args).seen marks := by
  simp [add]

/-- A product does not depend on marks. -/
theorem multiply_seen : multiply (args.seen marks) = (multiply args).seen marks := by
  simp [multiply]

/-- A difference does not depend on marks. -/
theorem subtract_seen : subtract (args.seen marks) = (subtract args).seen marks := by
  simp [subtract]

/-- An order does not depend on marks. -/
theorem ordered_seen (accept : Ordering → Bool) :
    ordered accept (args.seen marks) = (ordered accept args).seen marks := by
  simp [ordered, Value.order_seen]

/-- Strict equality does not depend on marks that tell nothing apart. -/
theorem equal_seen : equal (args.seen .telling) = (equal args).seen .telling := by
  simp [equal, Value.looselyEqual_seen]

/-- Strict inequality does not depend on marks that tell nothing apart. -/
theorem notEqual_seen : notEqual (args.seen .telling) = (notEqual args).seen .telling := by
  simp [notEqual, Value.looselyEqual_seen]

/-- What is escaped is escaped whatever its marks are. -/
theorem escape_seen : escape (args.seen marks) = (escape args).seen marks := by
  simp only [escape, Arguments.get_seen]
  cases args.get 0 <;> simp

/-- The data text of an argument does not depend on marks. -/
theorem dataText_seen : dataText (args.seen marks) = (dataText args).seen marks := by
  simp [dataText, (Value.texts_seen _).2]

/-- A new sequence holds what is seen of the arguments. -/
theorem sequence_seen : sequence (args.seen marks) = (sequence args).seen marks := by
  simp [sequence, Arguments.seen]

/-- Pairs of a name and a value are found whatever the marks are. -/
theorem pairs_seen (vs : List Value) :
    pairs (vs.map (seen marks)) = Keyed.mapValues (seen marks) (pairs vs) := by
  induction vs using pairs.induct with
  | case1 => rfl
  | case2 key => simp [pairs]
  | case3 key value rest ih => simp [pairs, ih]

/-- A new record holds what is seen of the arguments. -/
theorem record_seen : record (args.seen marks) = (record args).seen marks := by
  simp [record, Arguments.seen, pairs_seen, ← Keyed.extend_mapValues]

/-- Records are merged whatever their marks are. -/
theorem merge_seen : merge (args.seen marks) = (merge args).seen marks := by
  have hfields : (args.positional.map (seen marks)).filterMap Value.fields? =
      (args.positional.filterMap Value.fields?).map (Keyed.mapValues (seen marks)) := by
    simp [List.filterMap_map, List.map_filterMap, Value.fields?_seen]
  have hfold : ∀ (all : List (Keyed Value)) (done : Keyed Value),
      (all.map (Keyed.mapValues (seen marks))).foldl Keyed.extend
          (Keyed.mapValues (seen marks) done) =
        Keyed.mapValues (seen marks) (all.foldl Keyed.extend done) := by
    intro all done
    induction all generalizing done with
    | nil => rfl
    | cons fields all ih => rw [List.map_cons, List.foldl_cons, List.foldl_cons,
        Keyed.extend_mapValues, ih]
  rw [merge, merge, Value.seen_object_new, Arguments.seen, hfields]
  exact congrArg _ (hfold _ [])

/-- A path is read whatever the marks are. -/
theorem get_seen : get (args.seen marks) = (get args).seen marks := by
  simp [get, Value.readDotted_seen]

/-- A value is matched whatever the marks are that tell nothing apart. -/
theorem matchPairs_seen (v : Value) : ∀ vs : List Value,
    matchPairs (v.seen .telling) (vs.map (seen .telling)) = (matchPairs v vs).seen .telling
  | [] | [_] | [_, _] => rfl
  | key :: found :: next :: rest => by
    have hrest := matchPairs_seen v (next :: rest)
    rw [List.map_cons] at hrest
    simp only [List.map_cons, matchPairs, Value.equal_seen, hrest]
    split <;> rfl

/-- A choice by equality does not depend on marks that tell nothing apart. -/
theorem choose_seen : choose (args.seen .telling) = (choose args).seen .telling := by
  have hpairs := matchPairs_seen (args.get 0) (args.positional.drop 1)
  rw [List.map_drop] at hpairs
  simp only [choose, Arguments.get_seen, Value.keyText_seen]
  simp only [Arguments.seen, Keyed.find?_mapValues, hpairs]
  cases Keyed.find? (args.get 0).keyText args.named with
  | none => rfl
  | some found =>
    simp only [Option.map_some, Option.bind_some, Value.filterTruthy_seen]
    cases found.filterTruthy <;> rfl

/-- A negation does not depend on marks. -/
theorem negate_seen : negate (args.seen marks) = (negate args).seen marks := by
  simp [negate]

/-- Whether something is a sequence does not depend on marks. -/
theorem isSequence_seen : isSequence (args.seen marks) = (isSequence args).seen marks := by
  simp [isSequence, Value.items?_seen]

/-- The kind of an argument does not depend on marks. -/
theorem kind_seen : kind (args.seen marks) = (kind args).seen marks := by
  simp [kind]

end Builtin

/-! ### Discreet methods -/

section Same

variable {marks : Sight} {answer answer' answer'' : Answer}

/-- Answers that are the same are so in either order. -/
theorem Answer.Same.symm (h : answer.Same marks answer') : answer'.Same marks answer := by
  obtain ⟨hlog, houtcome⟩ := h
  refine ⟨hlog.symm, ?_⟩
  cases ho : answer.outcome <;> cases ho' : answer'.outcome <;> rw [ho, ho'] at houtcome
  · exact houtcome.symm
  · exact houtcome
  · exact houtcome
  · exact houtcome.symm

/-- Answers that are the same as one are the same as each other. -/
theorem Answer.Same.trans (h : answer.Same marks answer') (h' : answer'.Same marks answer'') :
    answer.Same marks answer'' := by
  obtain ⟨hlog, houtcome⟩ := h
  obtain ⟨hlog', houtcome'⟩ := h'
  refine ⟨hlog.trans hlog', ?_⟩
  cases ho : answer.outcome <;> cases ho' : answer'.outcome <;> cases ho'' : answer''.outcome <;>
    rw [ho, ho'] at houtcome <;> rw [ho', ho''] at houtcome'
  all_goals first | exact houtcome.trans houtcome' | exact houtcome.elim | exact houtcome'.elim

end Same

/-- A method is discreet as soon as its answers to what is seen of arguments look like those to the
arguments. -/
theorem Method.discreet_of_seen {m : Method}
    (h : ∀ args, (m.run (args.seen .telling)).Same .telling (m.run args)) : m.Discreet := by
  intro args args' halike
  have hargs : args.seen .telling = args'.seen .telling := halike
  exact (hargs ▸ h args).symm.trans (h args')

namespace Operations

/-- Methods that never fail are discreet when their values see through marks. -/
theorem discreet_pure {f : Arguments → Value} (h : SeesThrough f) (names : List String) :
    (pure names f).Methods Method.Discreet := by
  refine methods_pure (fun name => Method.discreet_of_seen fun args => ⟨rfl, ?_⟩) names
  show (f (args.seen .telling)).Alike .telling (f args)
  rw [h args]
  exact Value.seen_seen _

/-- A method on a text is discreet when it sees through the marks of its other arguments. -/
theorem discreet_onText (name : String) {f : String → Arguments → Value}
    (h : ∀ text, SeesThrough (f text)) :
    (partialMethod name (Builtin.onText name f)).Methods Method.Discreet := by
  refine methods_singleton (Method.discreet_of_seen fun args => ?_)
  have htext := fun text => h text args
  simp only [Builtin.onText, Arguments.get_seen]
  cases args.get 0 with
  | string text =>
    refine ⟨rfl, ?_⟩
    show (f text (args.seen .telling)).Alike .telling (f text args)
    rw [htext text]
    exact Value.seen_seen _
  | null | bool | int | float => exact ⟨rfl, rfl⟩
  | array | object | map => simp [Value.typeName, Answer.Same]

/-- The method that logs is discreet. -/
theorem discreet_log :
    Methods Method.Discreet [("log", .method { name := "log", run := Builtin.log })] := by
  refine methods_singleton (Method.discreet_of_seen fun args => ⟨?_, ?_⟩)
  · simp [Builtin.log, Value.data_plain_seen]
  · simp [Builtin.log, Value.Alike]

/-- The methods on texts and containers are discreet. -/
theorem discreet_data : data.Methods Method.Discreet := by
  unfold data
  repeat' apply Methods.append
  · exact discreet_pure Builtin.escape_seen _
  · exact discreet_pure (fun args => Builtin.foldNumbers_seen args _) _
  · exact discreet_pure (fun args => Builtin.foldNumbers_seen args _) _
  · exact discreet_onText _ fun text args => rfl
  · exact discreet_onText _ fun text args => rfl
  · exact discreet_pure Builtin.dataText_seen _
  · refine discreet_onText _ fun text args => ?_
    simp only [Arguments.get_seen, Value.toNumber_seen]
    split <;> rfl
  · exact discreet_pure Builtin.sequence_seen _
  · exact discreet_pure Builtin.record_seen _
  · exact discreet_pure Builtin.merge_seen _
  · exact discreet_pure Builtin.get_seen _
  · exact discreet_pure Builtin.choose_seen _
  · exact discreet_pure Builtin.negate_seen _
  · exact discreet_pure Builtin.isSequence_seen _
  · exact discreet_pure Builtin.kind_seen _
  · exact discreet_log

/-- The methods on numbers are discreet. -/
theorem discreet_arithmetic : arithmetic.Methods Method.Discreet := by
  unfold arithmetic
  repeat' apply Methods.append
  · exact discreet_pure (fun args => Builtin.ordered_seen args _) _
  · exact discreet_pure (fun args => Builtin.ordered_seen args _) _
  · exact discreet_pure (fun args => Builtin.ordered_seen args _) _
  · exact discreet_pure (fun args => Builtin.ordered_seen args _) _
  · exact discreet_pure Builtin.equal_seen _
  · exact discreet_pure Builtin.notEqual_seen _
  · exact discreet_pure Builtin.add_seen _
  · exact discreet_pure Builtin.subtract_seen _
  · exact discreet_pure Builtin.multiply_seen _
  · exact discreet_pure (fun args => Builtin.foldNumbers_seen args _) _
  · exact discreet_pure (fun args => Builtin.foldNumbers_seen args _) _

/-- The methods that every engine starts with are discreet. -/
theorem discreet_builtin : builtin.Methods Method.Discreet :=
  (methods_control.append discreet_data).append discreet_arithmetic

end Operations

end Stencil
