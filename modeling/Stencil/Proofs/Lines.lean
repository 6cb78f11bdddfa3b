import Stencil.Proofs.Visible

/-!
# What folding remembers

Folding goes over the lines of a text one by one, and what it puts out for a line hangs on a few
facts that it remembers of the lines before: whether anything has been put out, whether all of them
were tags that open blocks, whether the last one was a tag that closes a block, and the else tag
that is held back, if the last one was one.

A tag that opens a block is set off by a mark for a line break as soon as any line before it was
something else, even if the line right before it is a tag of a block itself. The trim marks, which
are carried out in the end, neither move that mark nor reach over it.

## Main results

* `foldLines_append`: lines are folded one part after the other.
* `remembers_run`: what is remembered tells what the lines before were.
* `carriedOut_append`: the trim marks are carried out on both sides of a tag.
* `fold_opening`: what folding puts out before a tag that opens a block.
-/

namespace Stencil.Source

open Text

/-! ### Runs over lines -/

/-- What is put out for lines, and what is remembered after them. -/
def Fold.run (fold : Fold) : List (List Char) → List Char × Fold
  | [] => ([], fold)
  | line :: lines =>
    let rest := (fold.step line).2.run lines
    ((fold.step line).1 ++ rest.1, rest.2)

/-- Lines are folded one after the other. -/
theorem foldLines_cons (fold : Fold) (line : List Char) (lines : List (List Char)) :
    foldLines fold (line :: lines) = (fold.step line).1 ++ foldLines (fold.step line).2 lines :=
  rfl

/-- Lines are folded one part after the other. -/
theorem foldLines_append (fold : Fold) (before after : List (List Char)) :
    foldLines fold (before ++ after) =
      (fold.run before).1 ++ foldLines (fold.run before).2 after := by
  induction before generalizing fold with
  | nil => rfl
  | cons line before ih =>
    rw [List.cons_append, foldLines_cons, ih, Fold.run, List.append_assoc]

/-- A further line puts out what it does after the lines before it. -/
theorem Fold.run_concat (fold : Fold) (lines : List (List Char)) (line : List Char) :
    fold.run (lines ++ [line]) =
      ((fold.run lines).1 ++ ((fold.run lines).2.step line).1,
        ((fold.run lines).2.step line).2) := by
  induction lines generalizing fold with
  | nil => simp [Fold.run]
  | cons first lines ih =>
    simp only [List.cons_append, Fold.run, ih, List.append_assoc]

/-- What is remembered after lines tells what they were, and whether they have put anything out. -/
structure Fold.Remembers (fold : Fold) (lines : List (List Char)) (out : List Char) : Prop where
  started : fold.started = true ↔ out ≠ []
  onlyOpenings : fold.onlyOpenings = true ↔ ∀ line ∈ lines, lineKind (trim line) = .opening
  afterClosing : fold.afterClosing = true ↔
    ∃ line ∈ lines.getLast?, lineKind (trim line) = .closing
  held : fold.held.isSome ↔ ∃ line ∈ lines.getLast?, lineKind (trim line) = .branch

/-- A tag that opens or closes a block is put out at once. -/
theorem Fold.suffix_step (fold : Fold) {line : List Char}
    (h : lineKind (trim line) = .opening ∨ lineKind (trim line) = .closing) :
    trim line <:+ (fold.step line).1 := by
  unfold Fold.step
  dsimp only
  rcases h with h | h <;> rw [h] <;> exact List.suffix_append _ _

/-- Behind a tag that opens or closes a block, what has been put out ends with two braces. -/
theorem closing_suffix_run {lines : List (List Char)} {line : List Char}
    (hline : line ∈ lines.getLast?)
    (h : lineKind (trim line) = .opening ∨ lineKind (trim line) = .closing) (fold : Fold) :
    closing <:+ (fold.run lines).1 := by
  obtain ⟨lines, rfl⟩ := List.getLast?_eq_some_iff.mp hline
  have htag : lineKind (trim line) ≠ .text := by
    rcases h with h | h <;> rw [h] <;> decide
  rw [Fold.run_concat]
  exact (tag_of_lineKind htag).2.trans
    ((Fold.suffix_step _ h).trans (List.suffix_append _ _))

/-- A line that is no text is not empty without the white space around it. -/
theorem trim_ne_nil_of_lineKind {line : List Char} (h : lineKind (trim line) ≠ .text) :
    trim line ≠ [] := by
  intro hnil
  obtain ⟨htag, -⟩ := tag_of_lineKind h
  rw [hnil] at htag
  cases List.prefix_nil.mp htag

/-- One line more is remembered with what it puts out. -/
theorem Fold.Remembers.step {fold : Fold} {lines : List (List Char)} {out : List Char}
    (h : fold.Remembers lines out) (line : List Char) :
    (fold.step line).2.Remembers (lines ++ [line]) (out ++ (fold.step line).1) := by
  have hall : (∀ l ∈ lines ++ [line], lineKind (trim l) = .opening) ↔
      (∀ l ∈ lines, lineKind (trim l) = .opening) ∧ lineKind (trim line) = .opening := by
    simp [or_imp, forall_and]
  have hlast : ∀ kind, (∃ l ∈ (lines ++ [line]).getLast?, lineKind (trim l) = kind) ↔
      lineKind (trim line) = kind := fun kind => by simp
  unfold Fold.step
  dsimp only
  cases hkind : lineKind (trim line) with
  | opening =>
    have hne : trim line ≠ [] := trim_ne_nil_of_lineKind (by rw [hkind]; decide)
    exact ⟨by simp [hne], by rw [hall, hkind]; simpa using h.onlyOpenings,
      by rw [hlast, hkind]; simp, by rw [hlast, hkind]; simp⟩
  | closing =>
    have hne : trim line ≠ [] := trim_ne_nil_of_lineKind (by rw [hkind]; decide)
    exact ⟨by simp [hne], by rw [hall, hkind]; simp, by rw [hlast, hkind]; simp,
      by rw [hlast, hkind]; simp⟩
  | branch =>
    refine ⟨?_, by rw [hall, hkind]; simp, by rw [hlast, hkind]; simp,
      by rw [hlast, hkind]; simp⟩
    cases hheld : fold.held <;> simp [heldLine, h.started]
  | text =>
    refine ⟨?_, by rw [hall, hkind]; simp, by rw [hlast, hkind]; simp,
      by rw [hlast, hkind]; simp⟩
    by_cases hstarted : fold.started = true
    · simp [hstarted, h.started.mp hstarted]
    · have hout : out = [] := Decidable.byContradiction fun hne => hstarted (h.started.mpr hne)
      simp [hstarted, hout]

/-- What is remembered after lines from the start of a text tells what these lines were. -/
theorem remembers_run (lines : List (List Char)) :
    (Fold.run {} lines).2.Remembers lines (Fold.run {} lines).1 := by
  induction lines using List.reverseRecOn with
  | nil => exact ⟨by simp [Fold.run], by simp [Fold.run], by simp [Fold.run], by simp [Fold.run]⟩
  | append_singleton lines line ih =>
    rw [Fold.run_concat]
    exact ih.step line

/-! ### Trim marks on both sides of a tag -/

/-- The text with its trim marks carried out. -/
def carriedOut (cs : List Char) : List Char :=
  trimAfter false (trimBefore [] cs)

/-- Trimming reaches back to the nearest character that is no white space. -/
theorem trimBefore_append_before {before : List Char} (h : ∀ c ∈ before.head?, isBlank c = false)
    (xs cs : List Char) : trimBefore (xs ++ before) cs = before.reverse ++ trimBefore xs cs := by
  fun_induction trimBefore xs cs with
  | case1 xs rest ih =>
    have hbefore : before.dropWhile isBlank = before := by
      cases before with
      | nil => rfl
      | cons c before => exact List.dropWhile_cons_of_neg (by simpa using h c rfl)
    have hdrop : (xs ++ before).dropWhile isBlank = xs.dropWhile isBlank ++ before := by
      rw [List.dropWhile_append]
      split
      · next hnil => rw [hbefore, List.isEmpty_iff.mp hnil, List.nil_append]
      · rfl
    rw [trimBefore, hdrop, ← ih]
    rfl
  | case2 xs c rest hne ih =>
    rw [trimBefore, ← ih, List.cons_append]
    exact hne
  | case3 xs => rw [trimBefore, List.reverse_append]

/-- Trimming two texts one after the other, when no mark lies across their seam. -/
theorem trimBefore_of_apart {xs ys : List Char} (h : Apart (opening ++ ['~']) xs ys)
    (before : List Char) :
    trimBefore before (xs ++ ys) = trimBefore (trimBefore before xs).reverse ys := by
  fun_induction trimBefore before xs with
  | case1 before rest ih =>
    rw [List.cons_append, List.cons_append, List.cons_append, trimBefore]
    exact ih (h.of_suffix ⟨opening ++ ['~'], rfl⟩)
  | case2 before c rest hne ih =>
    have hword : ¬opening ++ ['~'] <+: c :: rest := by
      rintro ⟨more, hmore⟩
      obtain ⟨rfl, rfl⟩ := List.cons.inj hmore
      exact hne more rfl rfl
    rw [List.cons_append, trimBefore]
    · exact ih (h.of_suffix (List.suffix_cons c rest))
    · rintro more rfl hmore
      refine hword (h.prefix_left (List.cons_ne_nil _ _) ⟨more, ?_⟩)
      rw [List.cons_append, hmore]
      rfl
  | case3 before => rw [List.nil_append, List.reverse_reverse]

/-- Trimming stops at a brace. -/
theorem trimAfter_append_brace (trimming : Bool) (xs cs : List Char) :
    trimAfter trimming (xs ++ '\x7b' :: cs) =
      trimAfter trimming xs ++ trimAfter false ('\x7b' :: cs) := by
  have hapart : ∀ {c : Char} {rest more : List Char},
      (∀ more, c = '~' → rest = '\x7d' :: '\x7d' :: more → False) → c = '~' →
        rest ++ '\x7b' :: cs = '\x7d' :: '\x7d' :: more → False := by
    rintro c rest more hne rfl hmore
    have hseam : Apart ('~' :: closing) ('~' :: rest) ('\x7b' :: cs) :=
      apart_of_notMem (by decide)
    have hword : '~' :: rest ++ '\x7b' :: cs = '~' :: closing ++ more :=
      congrArg (List.cons '~') hmore
    obtain ⟨tail, htail⟩ := hseam.prefix_left (List.cons_ne_nil _ _) ⟨more, hword.symm⟩
    exact hne tail rfl (List.cons.inj htail).2.symm
  fun_induction trimAfter trimming xs with
  | case1 trimming rest ih =>
    rw [List.cons_append, List.cons_append, List.cons_append, trimAfter, ih]
    rfl
  | case2 trimming c rest hne htrim ih =>
    rw [List.cons_append, trimAfter, if_pos htrim, ih]
    exact fun more => hapart hne
  | case3 trimming c rest hne htrim ih =>
    rw [List.cons_append, trimAfter, if_neg htrim, ih]
    · rfl
    · exact fun more => hapart hne
  | case4 trimming =>
    have hblank : isBlank '\x7b' = false := by decide
    simp [trimAfter, hblank]

/-- What starts with a tag still does so when the marks behind braces are carried out. -/
theorem exists_trimBefore_tag {cs : List Char} (h : opening <+: cs) :
    ∃ more, trimBefore [] cs = '\x7b' :: more := by
  have hbrace : ∀ c ∈ List.head? ['\x7b'], isBlank c = false := by
    rintro c ⟨⟩
    decide
  obtain ⟨rest, rfl⟩ := h
  by_cases hmark : ∃ more, rest = '~' :: more
  · obtain ⟨more, rfl⟩ := hmark
    exact ⟨_, trimBefore_append_before hbrace ['\x7b'] more⟩
  · refine ⟨trimBefore [] ('\x7b' :: rest), ?_⟩
    rw [opening, List.cons_append, trimBefore]
    · exact trimBefore_append_before hbrace [] ('\x7b' :: rest)
    · rintro more - hrest
      exact hmark ⟨more, (List.cons.inj hrest).2⟩

/-- A text that ends with a tag still does so when the marks behind braces are carried out. -/
theorem exists_trimBefore_closing {cs : List Char} (h : closing <:+ cs) (before : List Char) :
    ∃ more, trimBefore before cs = more ++ closing := by
  obtain ⟨start, rfl⟩ := h
  refine ⟨trimBefore before start, ?_⟩
  have hseam : Apart (opening ++ ['~']) start closing :=
    apart_of_forall_notMem_right (List.forall_mem_cons.mpr ⟨by decide, by simp [opening]⟩)
  rw [trimBefore_of_apart hseam]
  simp [closing, trimBefore]

/-- The trim marks are carried out on both sides of a tag, when there is nothing or a tag before
it. -/
theorem carriedOut_append {xs ys : List Char} (hxs : xs = [] ∨ closing <:+ xs)
    (hys : opening <+: ys) : carriedOut (xs ++ ys) = carriedOut xs ++ carriedOut ys := by
  obtain ⟨more, hmore⟩ := exists_trimBefore_tag hys
  have hhead : ∀ c ∈ (trimBefore [] xs).reverse.head?, isBlank c = false := by
    rcases hxs with rfl | hxs
    · rintro c ⟨⟩
    · obtain ⟨start, hstart⟩ := exists_trimBefore_closing hxs []
      rw [hstart, closing, List.reverse_append]
      rintro c ⟨⟩
      decide
  have hbefore := trimBefore_append_before hhead [] ys
  rw [List.nil_append, List.reverse_reverse] at hbefore
  rw [carriedOut, trimBefore_of_apart (apart_of_starts (by decide) hys), hbefore, hmore,
    trimAfter_append_brace, ← hmore]
  rfl

/-- A mark for a line break behind a text stays as it is. -/
theorem carriedOut_lineBreakMark (xs : List Char) :
    carriedOut (xs ++ lineBreakMark) = carriedOut xs ++ lineBreakMark := by
  have hmark : lineBreakMark = '\x7b' :: lineBreakMark.tail := rfl
  have hstart : opening <+: lineBreakMark := ⟨lineBreakMark.drop 2, rfl⟩
  have hseam : Apart (opening ++ ['~']) xs lineBreakMark := apart_of_starts (by decide) hstart
  have havoids : Avoids (opening ++ ['~']) lineBreakMark [] := avoids_of_absent (by decide)
  have hbefore : ∀ before : List Char,
      trimBefore before.reverse lineBreakMark = before ++ lineBreakMark := fun before => by
    simpa [trimBefore] using trimBefore_append havoids before.reverse
  rw [carriedOut, trimBefore_of_apart hseam, hbefore, hmark, trimAfter_append_brace]
  rfl

/-! ### Tags that open blocks -/

/-- Whether a tag that opens a block is set off from the lines before it: something has been put out
for them, and not all of them open blocks. -/
def SetOff (before : List (List Char)) : Prop :=
  (Fold.run {} before).1 ≠ [] ∧ ∃ line ∈ before, lineKind (trim line) ≠ .opening

instance (before : List (List Char)) : Decidable (SetOff before) :=
  inferInstanceAs (Decidable (_ ∧ _))

/-- A tag is set off exactly when the fold has started and has met more than openings. -/
theorem setOff_iff (before : List (List Char)) : SetOff before ↔
    ((Fold.run {} before).2.started && !(Fold.run {} before).2.onlyOpenings) = true := by
  have hremembers := remembers_run before
  rw [Bool.and_eq_true, Bool.not_eq_true', ← Bool.not_eq_true, hremembers.started,
    hremembers.onlyOpenings]
  simp [SetOff]

section Openings

variable {before : List (List Char)}
  (hheld : ∀ l ∈ before.getLast?, lineKind (trim l) ≠ .branch)
include hheld

/-- A line right before that is itself a tag of a block has been put out with its braces. -/
theorem closing_suffix_of_getLast? {line : List Char} (hline : line ∈ before.getLast?)
    (htext : lineKind (trim line) ≠ .text) : closing <:+ (Fold.run {} before).1 := by
  have hbranch := hheld line hline
  refine closing_suffix_run hline ?_ {}
  cases hkind : lineKind (trim line) with
  | opening => exact .inl rfl
  | closing => exact .inr rfl
  | branch => exact absurd hkind hbranch
  | text => exact absurd hkind htext

/-- What is put out for a tag that opens a block and for the lines behind it, when no else tag is
held back. -/
theorem foldLines_opening {line : List Char} (hkind : lineKind (trim line) = .opening)
    (after : List (List Char)) :
    foldLines {} (before ++ line :: after) =
      (Fold.run {} before).1 ++ (if SetOff before then lineBreakMark else []) ++
        (trim line ++ foldLines (Fold.run {} (before ++ [line])).2 after) := by
  have hnone : (Fold.run {} before).2.held = none := by
    rw [← Option.not_isSome_iff_eq_none, (remembers_run before).held]
    rintro ⟨l, hl, hbranch⟩
    exact hheld l hl hbranch
  have hstep : ((Fold.run {} before).2.step line).1 =
      (if SetOff before then lineBreakMark else []) ++ trim line := by
    simp only [Fold.step, hkind, Fold.join, hnone, setOff_iff]
  rw [foldLines_append, foldLines_cons, hstep, Fold.run_concat, List.append_assoc,
    List.append_assoc]

/-- The trim marks are carried out on both sides of the place before a tag that opens a block. -/
theorem carriedOut_opening {line rest : List Char} (hline : opening <+: line) :
    carriedOut ((Fold.run {} before).1 ++ (if SetOff before then lineBreakMark else []) ++
        (line ++ rest)) =
      carriedOut (Fold.run {} before).1 ++ (if SetOff before then lineBreakMark else []) ++
        carriedOut (line ++ rest) := by
  have htag : opening <+: line ++ rest := hline.trans (List.prefix_append _ _)
  by_cases h : SetOff before
  · have hmark : closing <:+ (Fold.run {} before).1 ++ lineBreakMark :=
      List.IsSuffix.trans ⟨lineBreakMark.dropLast.dropLast, rfl⟩ (List.suffix_append _ _)
    rw [if_pos h, carriedOut_append (.inr hmark) htag, carriedOut_lineBreakMark]
  · rw [if_neg h, List.append_nil, List.append_nil]
    refine carriedOut_append ?_ htag
    rw [or_iff_not_imp_left]
    intro hout
    rcases List.eq_nil_or_concat before with rfl | ⟨lines, l, rfl⟩
    · exact absurd rfl hout
    · have hopening : lineKind (trim l) = .opening := by
        by_contra hne
        exact h ⟨hout, l, by simp, hne⟩
      have hlast : l ∈ (lines.concat l).getLast? := by simp
      exact closing_suffix_of_getLast? hheld hlast (by rw [hopening]; decide)

/-- A tag is set off exactly behind lines of text only where the line right before is a line of
text, or all lines before open blocks. -/
theorem setOff_iff_text_iff :
    (SetOff before ↔
        (Fold.run {} before).1 ≠ [] ∧ ∃ l ∈ before.getLast?, lineKind (trim l) = .text) ↔
      (∃ l ∈ before.getLast?, lineKind (trim l) = .text) ∨
        ∀ l ∈ before, lineKind (trim l) = .opening := by
  constructor
  · intro hiff
    rw [or_iff_not_imp_left]
    intro htext l hl
    by_contra hopening
    obtain ⟨last, hlast⟩ : ∃ last, last ∈ before.getLast? :=
      Option.isSome_iff_exists.mp (List.getLast?_isSome.mpr (List.ne_nil_of_mem hl))
    have hclosing := closing_suffix_of_getLast? hheld hlast fun h => htext ⟨last, hlast, h⟩
    have hout : (Fold.run {} before).1 ≠ [] := by
      intro hout
      rw [hout] at hclosing
      cases List.suffix_nil.mp hclosing
    exact htext (hiff.mp ⟨hout, l, hl, hopening⟩).2
  · rintro (⟨l, hl, htext⟩ | hall)
    · have hmem : l ∈ before := List.mem_of_getLast? hl
      exact ⟨fun h => ⟨h.1, l, hl, htext⟩, fun h => ⟨h.1, l, hmem, by rw [htext]; decide⟩⟩
    · refine ⟨fun ⟨_, l, hl, hne⟩ => absurd (hall l hl) hne, fun ⟨_, l, hl, htext⟩ => ?_⟩
      have hopening := hall l (List.mem_of_getLast? hl)
      rw [htext] at hopening
      cases hopening

end Openings

/-- Folding puts out a tag that opens a block behind what the lines before it have put out. There
is a mark for a line break between them exactly when there is something before it, and any line
before it is no tag that opens a block. So a tag that opens a block has no mark before it only in a
run of such tags at the start of the text. A rule that looks at the line right before it alone, and
asks for a mark exactly behind a line of text, is met exactly when that line is a line of text or
all lines before are tags that open blocks. -/
theorem fold_opening {text : String} {before after : List (List Char)} {line : List Char}
    (hlines : splitOn (· == '\n') text.toList = before ++ line :: after)
    (hkind : lineKind (trim line) = .opening)
    (hheld : ∀ l ∈ before.getLast?, lineKind (trim l) ≠ .branch) :
    (fold text).toList =
        carriedOut (Fold.run {} before).1 ++ (if SetOff before then lineBreakMark else []) ++
          carriedOut (trim line ++ foldLines (Fold.run {} (before ++ [line])).2 after) ∧
      ((SetOff before ↔
          (Fold.run {} before).1 ≠ [] ∧ ∃ l ∈ before.getLast?, lineKind (trim l) = .text) ↔
        (∃ l ∈ before.getLast?, lineKind (trim l) = .text) ∨
          ∀ l ∈ before, lineKind (trim l) = .opening) := by
  have htag : opening <+: trim line := (tag_of_lineKind (by rw [hkind]; decide)).1
  have hfold : (fold text).toList = carriedOut (foldLines {} (before ++ line :: after)) := by
    rw [fold, hlines, String.toList_ofList]
    rfl
  rw [hfold, foldLines_opening hheld hkind, carriedOut_opening hheld htag]
  exact ⟨rfl, setOff_iff_text_iff hheld⟩

/-- A tag with a trim mark behind a tag that closes a block. -/
theorem fold_opening_closing :
    let text := "\x7b\x7b#a~\x7d\x7d\n b\n\x7b\x7b/a\x7d\x7d\n \x7b\x7b~#c\x7d\x7d\nd"
    let before := ["\x7b\x7b#a~\x7d\x7d".toList, " b".toList, "\x7b\x7b/a\x7d\x7d".toList]
    let line := " \x7b\x7b~#c\x7d\x7d".toList
    splitOn (· == '\n') text.toList = before ++ line :: ["d".toList] ∧
      lineKind (trim line) = .opening ∧
      (∀ l ∈ before.getLast?, lineKind (trim l) ≠ .branch) ∧
      (fold text).toList = "\x7b\x7b#a\x7d\x7db\n\x7b\x7b/a\x7d\x7d".toList ++ lineBreakMark ++
        "\x7b\x7b#c\x7d\x7d\nd".toList := by
  intro text before line
  have hlines : splitOn (· == '\n') text.toList = before ++ line :: ["d".toList] := by decide
  have hkind : lineKind (trim line) = .opening := by decide
  have hheld : ∀ l ∈ before.getLast?, lineKind (trim l) ≠ .branch := by decide
  refine ⟨hlines, hkind, hheld, (fold_opening hlines hkind hheld).1.trans ?_⟩
  decide

/-- A tag that opens a block is set off from another one right before it, and so from no line of
text. -/
theorem fold_opening_nested :
    let text := "a\n\x7b\x7b#b\x7d\x7d\n\x7b\x7b#c\x7d\x7d"
    let before := ["a".toList, "\x7b\x7b#b\x7d\x7d".toList]
    splitOn (· == '\n') text.toList = before ++ ["\x7b\x7b#c\x7d\x7d".toList] ∧
      (∀ l ∈ before.getLast?, lineKind (trim l) = .opening) ∧
      (fold text).toList = carriedOut (Fold.run {} before).1 ++ lineBreakMark ++
        "\x7b\x7b#c\x7d\x7d".toList := by
  decide

end Stencil.Source
