import Stencil.Value.Text

/-!
# Marking new containers

A value that has just been made holds containers without a mark. They are numbered before the value
goes anywhere, the outer ones before those they hold, so that from then on each of them is the same
as itself wherever it is read. What already carries a mark is left alone, together with all that it
holds.

## Main results

* `output_marked`: the output of a value shows no marks.
-/

namespace Stencil.Value

mutual

/-- Marks the new containers of a value as made in a run, from a number on: the value, and the next
number. -/
def marked (run : Nat) : Value → Nat → Value × Nat
  | .array .new items, number =>
    let (items, next) := markedItems run items (number + 1)
    (.array (.made run number) items, next)
  | .object .new fields, number =>
    let (fields, next) := markedFields run fields (number + 1)
    (.object (.made run number) fields, next)
  | .map .new entries, number =>
    let (entries, next) := markedEntries run entries (number + 1)
    (.map (.made run number) entries, next)
  | v, number => (v, number)

/-- Marks the new containers of the items of a sequence. -/
def markedItems (run : Nat) : List Value → Nat → List Value × Nat
  | [], number => ([], number)
  | item :: items, number =>
    let (item, next) := marked run item number
    let (items, next) := markedItems run items next
    (item :: items, next)

/-- Marks the new containers of the fields of a record. -/
def markedFields (run : Nat) : List (String × Value) → Nat → List (String × Value) × Nat
  | [], number => ([], number)
  | (name, value) :: fields, number =>
    let (value, next) := marked run value number
    let (fields, next) := markedFields run fields next
    ((name, value) :: fields, next)

/-- Marks the new containers of the entries of a map. -/
def markedEntries (run : Nat) : List (Value × Value) → Nat → List (Value × Value) × Nat
  | [], number => ([], number)
  | (key, value) :: entries, number =>
    let (key, next) := marked run key number
    let (value, next) := marked run value next
    let (entries, next) := markedEntries run entries next
    ((key, value) :: entries, next)

end

/-! ### Texts -/

mutual

/-- Marking a value does not change how it is written. -/
theorem texts_marked (run : Nat) : ∀ (v : Value) (number : Nat),
    (marked run v number).1.output = v.output ∧ (marked run v number).1.data = v.data
  | .array .new items, number => by
    simp [marked, output, data, texts_markedItems run items]
  | .object .new fields, number => by
    simp [marked, output, data, texts_markedFields run fields]
  | .map .new entries, number => by
    simp [marked, output, data, texts_markedEntries run entries]
  | .array (.outer _) _, _ | .array (.made _ _) _, _ | .object (.outer _) _, _
  | .object (.made _ _) _, _ | .map (.outer _) _, _ | .map (.made _ _) _, _ => by simp [marked]
  | .null, _ | .bool _, _ | .int _, _ | .float _, _ | .string _, _ => by simp [marked]

/-- Marking items does not change how they are written. -/
theorem texts_markedItems (run : Nat) : ∀ (items : List Value) (number : Nat),
    outputs (markedItems run items number).1 = outputs items ∧
      dataItems (markedItems run items number).1 = dataItems items
  | [], _ => by simp [markedItems]
  | item :: items, number => by
    simp [markedItems, outputs, dataItems, texts_marked run item, texts_markedItems run items]

/-- Marking fields does not change how they are written. -/
theorem texts_markedFields (run : Nat) : ∀ (fields : List (String × Value)) (number : Nat),
    dataFields (markedFields run fields number).1 = dataFields fields
  | [], _ => by simp [markedFields]
  | (name, value) :: fields, number => by
    simp [markedFields, dataFields, texts_marked run value, texts_markedFields run fields]

/-- Marking entries does not change how they are written. -/
theorem texts_markedEntries (run : Nat) : ∀ (entries : List (Value × Value)) (number : Nat),
    dataEntries (markedEntries run entries number).1 = dataEntries entries
  | [], _ => by simp [markedEntries]
  | (key, value) :: entries, number => by
    simp [markedEntries, dataEntries, texts_marked run key, texts_marked run value,
      texts_markedEntries run entries]

end

/-- The output text of a value shows no marks. -/
theorem output_marked (run : Nat) (v : Value) (number : Nat) :
    (marked run v number).1.output = v.output :=
  (texts_marked run v number).1

end Stencil.Value
