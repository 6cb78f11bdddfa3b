import Mathlib.Data.List.Infix
import Stencil.Proofs.Names

/-!
# Seams

Where two texts meet, a word may stand that is in neither of them: it starts in the first text and
goes on in the second one. Most words cannot do so, since what has been written of them at the seam
does not fit. Two texts that are apart for a word have its places in the one and in the other, and
no more; a word that cannot go on in a copy of itself is first found where it was put. To replace a
word in two texts that are apart is to replace it in the one and in the other.

## Main results

* `absent_append_of_apart`: a word that is in neither of two texts is not in both together.
* `breakAt_of_absent`: a word that is not in a text is found behind the text.
* `replace_append`: replacing a word in two texts that are apart.
-/

namespace Stencil.Text

variable {word xs ys : List Char}

/-- The word does not lie across the seam of two texts. -/
def Apart (word xs ys : List Char) : Prop :=
  ∀ s t, word = s ++ t → s ≠ [] → t ≠ [] → s <:+ xs → ¬t <+: ys

/-- Whether the word may end in a text that starts as the given one does. -/
def mayEnd (word start : List Char) : Bool :=
  word.tail.tails.any fun t => !t.isEmpty && (t.isPrefixOf start || start.isPrefixOf t)

/-- Whether the word may start in a text that ends as the given one does. -/
def mayStart (word ending : List Char) : Bool :=
  word.dropLast.inits.any fun s => !s.isEmpty && (s.isSuffixOf ending || ending.isSuffixOf s)

/-- A word that could not go on into the beginning of a text stays apart. -/
theorem apart_of_starts {start : List Char} (h : mayEnd word start = false)
    (hstart : start <+: ys) : Apart word xs ys := by
  rintro s t rfl hs ht - hys
  refine List.any_eq_false.mp h t ?_ ?_
  · obtain ⟨c, s, rfl⟩ := List.exists_cons_of_ne_nil hs
    exact (List.mem_tails _ _).mpr ⟨s, rfl⟩
  · rcases List.prefix_or_prefix_of_prefix hys hstart with h | h <;> simp [h, ht]

/-- A word that could not start at the end of a text stays apart. -/
theorem apart_of_ends {ending : List Char} (h : mayStart word ending = false)
    (hending : ending <:+ xs) : Apart word xs ys := by
  rintro s t rfl hs ht hxs -
  refine List.any_eq_false.mp h s ?_ ?_
  · rw [List.dropLast_append_of_ne_nil ht]
    exact (List.mem_inits _ _).mpr ⟨t.dropLast, rfl⟩
  · rcases List.suffix_or_suffix_of_suffix hxs hending with h | h <;> simp [h, hs]

/-- A word does not start with characters that it does not have. -/
theorem apart_of_forall_notMem (h : ∀ c ∈ xs, c ∉ word) : Apart word xs ys := by
  rintro s t rfl hs - hxs -
  obtain ⟨c, s, rfl⟩ := List.exists_cons_of_ne_nil hs
  exact h c (hxs.mem List.mem_cons_self) (by simp)

/-- A word does not go on with a character that it does not have. -/
theorem apart_of_notMem {c : Char} (h : c ∉ word) : Apart word xs (c :: ys) := by
  rintro s (_ | ⟨d, t⟩) rfl - ht - hys
  · exact ht rfl
  · obtain rfl := (List.cons_prefix_cons.mp hys).1
    exact h (by simp)

/-- A word with no character in the second text stays apart. -/
theorem apart_of_forall_notMem_right (h : ∀ c ∈ ys, c ∉ word) : Apart word xs ys := by
  cases ys with
  | nil => exact fun _ _ _ _ ht _ hys => ht (List.prefix_nil.mp hys)
  | cons c ys => exact apart_of_notMem (h c List.mem_cons_self)

/-- What is apart of a text is apart of its end. -/
theorem Apart.of_suffix {zs : List Char} (h : Apart word xs ys) (hzs : zs <:+ xs) :
    Apart word zs ys :=
  fun s t hword hs ht hsuffix => h s t hword hs ht (hsuffix.trans hzs)

/-- A word at the start of two texts side by side starts the first one, unless it lies across the
seam. -/
theorem Apart.prefix_left (h : Apart word xs ys) (hne : xs ≠ []) (hword : word <+: xs ++ ys) :
    word <+: xs := by
  obtain ⟨rest, hrest⟩ := hword
  rcases List.append_eq_append_iff.mp hrest with ⟨t, rfl, -⟩ | ⟨t, rfl, rfl⟩
  · exact List.prefix_append word t
  · by_cases ht : t = []
    · simp [ht]
    · exact absurd (List.prefix_append t rest) (h xs t rfl hne ht (List.suffix_refl xs))

/-- A word that is not in a text starts nowhere in it when a text follows that is apart. -/
theorem avoids_of_apart (hxs : ¬word <:+: xs) (h : Apart word xs ys) : Avoids word xs ys := by
  induction xs with
  | nil => trivial
  | cons c xs ih =>
    rw [List.infix_cons_iff, not_or] at hxs
    exact ⟨fun hword => hxs.1 (h.prefix_left (List.cons_ne_nil c xs) hword),
      ih hxs.2 (h.of_suffix (List.suffix_cons c xs))⟩

/-- A text that avoids a word keeps it absent when it is not in what follows. -/
theorem Avoids.absent_append (h : Avoids word xs ys) (hys : ¬word <:+: ys) :
    ¬word <:+: xs ++ ys := by
  induction xs with
  | nil => exact hys
  | cons c xs ih =>
    rw [List.cons_append, List.infix_cons_iff, not_or]
    exact ⟨h.1, ih h.2⟩

/-- A word that is in neither of two texts that are apart is not in both together. -/
theorem absent_append_of_apart (hxs : ¬word <:+: xs) (hys : ¬word <:+: ys) (h : Apart word xs ys) :
    ¬word <:+: xs ++ ys :=
  (avoids_of_apart hxs h).absent_append hys

/-- A text is cut where the word comes that it avoids. -/
theorem breakAt_of_avoids {before rest : List Char} (h : Avoids word before (word ++ rest)) :
    breakAt word (before ++ word ++ rest) = some (before, rest) := by
  induction before with
  | nil =>
    have hafter : after? word (word ++ rest) = some rest := after?_eq_some.mpr rfl
    rw [List.nil_append]
    rcases hcs : word ++ rest with _ | ⟨c, cs⟩ <;> rw [hcs] at hafter <;> rw [breakAt, hafter]
    rfl
  | cons c before ih =>
    have hafter : after? word (c :: (before ++ word ++ rest)) = none := by
      rw [Option.eq_none_iff_forall_ne_some]
      intro more hmore
      refine h.1 ⟨more, ?_⟩
      rw [← after?_eq_some.mp hmore]
      simp
    rw [List.cons_append, List.cons_append, breakAt, hafter]
    simp only [ih h.2, Option.map_some]

/-- A word that is not in a text is found behind the text, unless it goes on in a copy of itself. -/
theorem breakAt_of_absent (hself : mayEnd word word = false) {before : List Char}
    (h : ¬word <:+: before) (rest : List Char) :
    breakAt word (before ++ word ++ rest) = some (before, rest) :=
  breakAt_of_avoids (avoids_of_apart h (apart_of_starts hself (List.prefix_append word rest)))

/-! ### Replacing a word -/

/-- The text with a word replaced at each of its places, from left to right, after the first `skip`
characters have been left out. -/
def replaceFrom (word new : List Char) : Nat → List Char → List Char
  | _, [] => []
  | skip + 1, _ :: cs => replaceFrom word new skip cs
  | 0, c :: cs =>
    if word.isPrefixOf (c :: cs) then new ++ replaceFrom word new (word.length - 1) cs
    else c :: replaceFrom word new 0 cs

/-- The text with a word replaced at each of its places, from left to right. -/
def replace (word new cs : List Char) : List Char :=
  replaceFrom word new 0 cs

variable {new : List Char}

/-- Replacing goes on behind what it has passed over. -/
theorem replaceFrom_append (xs cs : List Char) :
    replaceFrom word new xs.length (xs ++ cs) = replace word new cs := by
  induction xs with
  | nil => rfl
  | cons c xs ih => exact ih

/-- In an empty text nothing is replaced. -/
@[simp] theorem replace_nil (word new : List Char) : replace word new [] = [] := by
  simp [replace, replaceFrom]

/-- A character at which the word does not start stays. -/
theorem replace_cons {c : Char} {cs : List Char} (h : ¬word <+: c :: cs) :
    replace word new (c :: cs) = c :: replace word new cs := by
  rw [replace, replaceFrom, if_neg (by rwa [List.isPrefixOf_iff_prefix]), replace]

/-- The word is replaced at the start of a text. -/
theorem replace_word (hne : word ≠ []) (cs : List Char) :
    replace word new (word ++ cs) = new ++ replace word new cs := by
  obtain ⟨c, word, rfl⟩ := List.exists_cons_of_ne_nil hne
  have hword : (c :: word).isPrefixOf (c :: (word ++ cs)) = true :=
    List.isPrefixOf_iff_prefix.mpr (List.prefix_append (c :: word) cs)
  rw [List.cons_append, replace, replaceFrom, if_pos hword]
  exact congrArg (new ++ ·) (replaceFrom_append word cs)

/-- A text is gone through by passing over the word where it starts, and over a character
elsewhere. -/
@[elab_as_elim]
theorem word_induction {motive : List Char → Prop} (hne : word ≠ []) (nil : motive [])
    (step : ∀ c cs, ¬word <+: c :: cs → motive cs → motive (c :: cs))
    (found : ∀ cs, motive cs → motive (word ++ cs)) (cs : List Char) : motive cs := by
  by_cases h : word <+: cs
  · have hpos := List.length_pos_iff.mpr hne
    have hle := h.length_le
    rw [← List.prefix_iff_eq_append.mp h]
    exact found _ (word_induction hne nil step found (cs.drop word.length))
  · cases cs with
    | nil => exact nil
    | cons c cs => exact step c cs h (word_induction hne nil step found cs)
termination_by cs.length
decreasing_by
  · rw [List.length_drop]
    omega
  · exact Nat.lt_succ_self _

/-- Replacing a word in two texts that are apart. -/
theorem replace_append (hne : word ≠ []) (h : Apart word xs ys) :
    replace word new (xs ++ ys) = replace word new xs ++ replace word new ys := by
  induction xs using word_induction hne with
  | nil => rw [replace_nil, List.nil_append, List.nil_append]
  | step c xs hword ih =>
    have hboth : ¬word <+: c :: (xs ++ ys) := fun hboth =>
      hword (h.prefix_left (List.cons_ne_nil c xs) hboth)
    rw [replace_cons hword, List.cons_append, List.cons_append, replace_cons hboth,
      ih (h.of_suffix (List.suffix_cons c xs))]
  | found xs ih =>
    rw [List.append_assoc, replace_word hne, replace_word hne,
      ih (h.of_suffix (List.suffix_append word xs)), List.append_assoc]

/-- Nothing is replaced in a text that has none of the characters of the word. -/
theorem replace_of_forall_notMem (hne : word ≠ []) (h : ∀ c ∈ xs, c ∉ word) :
    replace word new xs = xs := by
  induction xs with
  | nil => exact replace_nil word new
  | cons c xs ih =>
    obtain ⟨hc, hxs⟩ := List.forall_mem_cons.mp h
    have hword : ¬word <+: c :: xs := by
      rintro ⟨rest, hrest⟩
      obtain ⟨d, word, rfl⟩ := List.exists_cons_of_ne_nil hne
      obtain ⟨rfl, -⟩ := List.cons.inj hrest
      exact hc List.mem_cons_self
    rw [replace_cons hword, ih hxs]

end Stencil.Text
