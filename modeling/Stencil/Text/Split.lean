/-!
# Cutting a text at separators

A text is cut at every separator into the pieces between them, empty ones included, so that a text
with `n` separators has `n + 1` pieces. A text is also cut at the first place where a given word
stands.

## Main results

* `intercalate_splitOn`: the pieces, joined by the separator, are the text again.
* `breakAt_eq_some`: the two sides of a cut and the word between them are the text.
-/

namespace Stencil.Text

/-- The pieces between the characters that `sep` accepts. -/
def splitOn (sep : Char → Bool) : List Char → List (List Char)
  | [] => [[]]
  | c :: cs =>
    if sep c then [] :: splitOn sep cs
    else match splitOn sep cs with
      | [] => [[c]]
      | piece :: pieces => (c :: piece) :: pieces

/-- The pieces of a text between the characters that `sep` accepts. -/
def split (sep : Char → Bool) (text : String) : List String :=
  (splitOn sep text.toList).map String.ofList

/-- The text without the word it starts with, if it does. -/
def after? : List Char → List Char → Option (List Char)
  | [], cs => some cs
  | _ :: _, [] => none
  | w :: word, c :: cs => if w = c then after? word cs else none

/-- What stands before and after the first occurrence of a word. -/
def breakAt (word : List Char) : List Char → Option (List Char × List Char)
  | [] => (after? word []).map ([], ·)
  | c :: cs =>
    match after? word (c :: cs) with
    | some rest => some ([], rest)
    | none => (breakAt word cs).map fun (before, rest) => (c :: before, rest)

/-- The number of bytes that a text takes in UTF-8. -/
def byteSize : List Char → Nat
  | [] => 0
  | c :: cs => c.utf8Size + byteSize cs

/-! ### Bytes -/

/-- The bytes of texts after each other add up. -/
theorem byteSize_append (xs ys : List Char) : byteSize (xs ++ ys) = byteSize xs + byteSize ys := by
  induction xs with
  | nil => simp [byteSize]
  | cons c xs ih => rw [List.cons_append, byteSize, byteSize, ih, Nat.add_assoc]

/-- A text has at least as many bytes as characters. -/
theorem length_le_byteSize (cs : List Char) : cs.length ≤ byteSize cs := by
  induction cs with
  | nil => exact Nat.le_refl _
  | cons c cs ih =>
    have hc := c.utf8Size_pos
    rw [List.length_cons, byteSize]
    omega

/-! ### Nothing is lost -/

/-- A text has at least one piece. -/
theorem splitOn_ne_nil (sep : Char → Bool) (cs : List Char) : splitOn sep cs ≠ [] := by
  induction cs with
  | nil => simp [splitOn]
  | cons c cs ih =>
    unfold splitOn
    split
    · simp
    · split <;> simp

/-- The pieces between occurrences of one character, joined by it, are the text again. -/
theorem intercalate_splitOn (c : Char) (cs : List Char) :
    [c].intercalate (splitOn (· == c) cs) = cs := by
  induction cs with
  | nil => simp [splitOn, List.intercalate]
  | cons d cs ih =>
    unfold splitOn
    split
    · next h =>
      have hd : d = c := by simpa using h
      subst hd
      obtain ⟨piece, pieces, hp⟩ := List.exists_cons_of_ne_nil (splitOn_ne_nil (· == d) cs)
      rw [hp] at ih ⊢
      simpa [List.intercalate] using ih
    · split
      · next h => exact absurd h (splitOn_ne_nil _ _)
      · next piece pieces hp =>
        rw [hp] at ih
        cases pieces with
        | nil => simpa [List.intercalate] using ih
        | cons q qs => simpa [List.intercalate] using ih

/-- A text that starts with a word is the word followed by the rest. -/
theorem after?_eq_some {word cs rest : List Char} :
    after? word cs = some rest ↔ cs = word ++ rest := by
  induction word generalizing cs with
  | nil => simp [after?, eq_comm]
  | cons w word ih =>
    cases cs with
    | nil => simp [after?]
    | cons c cs =>
      by_cases h : w = c
      · simp [after?, h, ih]
      · simp [after?, h, Ne.symm h]

/-- The two sides of a cut and the word between them are the text. -/
theorem breakAt_eq_some {word cs before rest : List Char}
    (h : breakAt word cs = some (before, rest)) : cs = before ++ word ++ rest := by
  induction cs generalizing before with
  | nil =>
    simp only [breakAt, Option.map_eq_some_iff, Prod.mk.injEq] at h
    obtain ⟨r, hr, rfl, rfl⟩ := h
    simpa using after?_eq_some.mp hr
  | cons c cs ih =>
    unfold breakAt at h
    split at h
    · next r hr =>
      simp only [Option.some.injEq, Prod.mk.injEq] at h
      obtain ⟨rfl, rfl⟩ := h
      simpa using after?_eq_some.mp hr
    · simp only [Option.map_eq_some_iff, Prod.mk.injEq] at h
      obtain ⟨⟨b, r⟩, hb, rfl, rfl⟩ := h
      simp [ih hb]

end Stencil.Text
