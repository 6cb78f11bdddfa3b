/-!
# Keyed lists

A keyed list holds one value per key and remembers the order in which the keys were first written.
Writing to a key that is there replaces its value and leaves it in its place; writing to a new key
puts it at the end. Records, named arguments and tables of names are kept this way.

## Main results

* `find?_insert_self`, `find?_insert_ne`: a written key reads back, and no other key changes.
* `find?_insertNew`: what is there stays when only new keys are written.
* `keys_insert`: writing to a key that is there keeps the keys; a new one comes last.
-/

namespace Stencil

/-- A list of values under names, in the order the names were first written. -/
abbrev Keyed (α : Type) := List (String × α)

namespace Keyed

variable {α : Type}

/-- The value under a key. -/
def find? (key : String) : Keyed α → Option α
  | [] => none
  | (k, v) :: rest => if k = key then some v else find? key rest

/-- Whether a key is there. -/
def contains (key : String) (entries : Keyed α) : Bool :=
  (find? key entries).isSome

/-- Writes a value under a key. -/
def insert (key : String) (value : α) : Keyed α → Keyed α
  | [] => [(key, value)]
  | (k, v) :: rest => if k = key then (k, value) :: rest else (k, v) :: insert key value rest

/-- Writes a value under a key that is not there. A key that is there keeps its value. -/
def insertNew (key : String) (value : α) (entries : Keyed α) : Keyed α :=
  if contains key entries then entries else insert key value entries

/-- Removes a key and its value. -/
def erase (key : String) : Keyed α → Keyed α
  | [] => []
  | (k, v) :: rest => if k = key then rest else (k, v) :: erase key rest

/-- The keys in the order they were first written. -/
def keys (entries : Keyed α) : List String :=
  entries.map Prod.fst

/-- The keys in ascending order. -/
def sortedKeys (entries : Keyed α) : List String :=
  (keys entries).mergeSort fun a b => a ≤ b

/-- Writes the entries of `more` one after another. -/
def extend (entries more : Keyed α) : Keyed α :=
  more.foldl (fun acc entry => insert entry.1 entry.2 acc) entries

/-- The keyed list that writing the given entries one after another leads to. -/
def ofList (entries : List (String × α)) : Keyed α :=
  extend [] entries

/-! ### Reading after writing -/

/-- What has been put in is found. -/
@[simp] theorem find?_insert_self (key : String) (value : α) (entries : Keyed α) :
    find? key (insert key value entries) = some value := by
  induction entries with
  | nil => simp [insert, find?]
  | cons entry rest ih =>
    obtain ⟨k, v⟩ := entry
    by_cases h : k = key <;> simp [insert, find?, h, ih]

/-- To put in under one key leaves the other keys as they are. -/
theorem find?_insert_ne {key other : String} (h : other ≠ key) (value : α) (entries : Keyed α) :
    find? other (insert key value entries) = find? other entries := by
  induction entries with
  | nil => simp [insert, find?, Ne.symm h]
  | cons entry rest ih =>
    obtain ⟨k, v⟩ := entry
    by_cases hk : k = key
    · subst hk
      simp [insert, find?, Ne.symm h]
    · by_cases ho : k = other
      · subst ho
        simp [insert, find?, hk]
      · simp [insert, find?, hk, ho, ih]

/-- What is there stays when only new keys are written. -/
theorem find?_insertNew {key other : String} {value found : α} {entries : Keyed α}
    (h : find? other entries = some found) :
    find? other (insertNew key value entries) = some found := by
  unfold insertNew
  split
  · exact h
  · next hc =>
    by_cases ho : other = key
    · subst ho
      simp [contains, h] at hc
    · rw [find?_insert_ne ho, h]

/-- Writing keeps the keys that are there in their order and puts a new one last. -/
theorem keys_insert (key : String) (value : α) (entries : Keyed α) :
    keys (insert key value entries) =
      if contains key entries then keys entries else keys entries ++ [key] := by
  induction entries with
  | nil => simp [insert, keys, contains, find?]
  | cons entry rest ih =>
    obtain ⟨k, v⟩ := entry
    by_cases h : k = key
    · simp [insert, keys, contains, find?, h]
    · simp only [keys] at ih
      by_cases hc : contains key rest <;>
        simp_all [insert, keys, contains, find?]

end Keyed

end Stencil
