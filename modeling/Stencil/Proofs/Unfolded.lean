import Stencil.Proofs.Lines

/-!
# Lines that folding leaves alone

Folding joins the lines of a text as they are, unless some of them are tags of blocks. Whether a
line is one is told by its first and its last characters, and so several tags side by side are taken
for one, and so is a tag whose name starts with `else`.

In a text without trim marks the output of the folding can be compared with the text line by line:
every line after the first one puts out at most one line break, counted with the else tag that it
may hold back, and each of them has one in the text. So the text is left as it is exactly when no
line loses its break and no tag has white space beside it.

## Main results

* `foldLines_of_chain`, `count_foldLines_lt`: what is put out when all lines keep their breaks, and
  how many breaks are put out otherwise.
* `lineKind_ne_text_iff`: which lines are taken for tags of blocks.
* `fold_eq_self_iff`: which texts folding leaves as they are.
-/

namespace Stencil.Source

open Text

/-! ### Lines side by side -/

/-- Lines are joined by line breaks before all but the first. -/
theorem intercalate_cons (first : List Char) (rest : List (List Char)) :
    ['\n'].intercalate (first :: rest) = first ++ rest.flatMap ('\n' :: ·) := by
  induction rest generalizing first with
  | nil => simp [List.intercalate]
  | cons line rest ih =>
    have hsplit : ['\n'].intercalate (first :: line :: rest) =
        first ++ '\n' :: ['\n'].intercalate (line :: rest) := by
      simp [List.intercalate]
    rw [hsplit, ih, List.flatMap_cons, List.cons_append]

/-- Lines side by side are cut into the lines again. -/
theorem splitOn_intercalate {first : List Char} {rest : List (List Char)}
    (h : ∀ line ∈ first :: rest, '\n' ∉ line) :
    splitOn (· == '\n') (['\n'].intercalate (first :: rest)) = first :: rest := by
  rw [intercalate_cons]
  obtain ⟨hfirst, hrest⟩ := List.forall_mem_cons.mp h
  induction rest generalizing first with
  | nil =>
    rw [List.flatMap_nil, List.append_nil]
    exact splitOn_of_forall fun c hc => beq_eq_false_iff_ne.mpr fun hline => hfirst (hline ▸ hc)
  | cons line rest ih =>
    induction first with
    | nil =>
      have hnext := ih hrest (List.forall_mem_cons.mp hrest).1 (List.forall_mem_cons.mp hrest).2
      rw [List.nil_append, List.flatMap_cons, List.cons_append, splitOn, hnext]
      rfl
    | cons c first ihfirst =>
      rw [List.mem_cons, not_or] at hfirst
      have hshorter := ihfirst (List.forall_mem_cons.mpr ⟨hfirst.2, hrest⟩) hfirst.2
      have hc : (c == '\n') = false := beq_eq_false_iff_ne.mpr (Ne.symm hfirst.1)
      rw [List.cons_append, splitOn, hshorter, hc]
      rfl

/-- Lines side by side have a line break between any two of them. -/
theorem count_intercalate {first : List Char} {rest : List (List Char)}
    (h : ∀ line ∈ first :: rest, '\n' ∉ line) :
    (['\n'].intercalate (first :: rest)).count '\n' = rest.length := by
  obtain ⟨hfirst, hrest⟩ := List.forall_mem_cons.mp h
  rw [intercalate_cons, List.count_append, List.count_eq_zero.mpr hfirst, Nat.zero_add]
  clear h hfirst
  induction rest with
  | nil => rfl
  | cons line rest ih =>
    obtain ⟨hline, hrest⟩ := List.forall_mem_cons.mp hrest
    rw [List.flatMap_cons, List.count_append, List.count_cons_self, ih hrest,
      List.count_eq_zero.mpr hline, List.length_cons, Nat.zero_add, Nat.add_comm]

/-- What is left of a trimmed line is in the line. -/
theorem trim_isInfix (line : List Char) : trim line <:+: line :=
  (trimEnd_prefix_self _).isInfix.trans (trimStart_suffix_self line).isInfix

/-! ### Texts without trim marks -/

/-- A text without trim marks has none to carry out. -/
theorem carriedOut_of_absent {cs : List Char} (hbefore : ¬opening ++ ['~'] <:+: cs)
    (hafter : ¬ '~' :: closing <:+: cs) : carriedOut cs = cs := by
  have htrim : trimBefore [] cs = cs := by
    simpa [trimBefore] using trimBefore_append (avoids_of_absent hbefore) []
  have hrest := trimAfter_append (avoids_of_absent hafter)
  rw [List.append_nil] at hrest
  rw [carriedOut, htrim, hrest]
  simp [trimAfter]

section Absent

variable {word : List Char} (hne : word ≠ []) (hline : '\n' ∉ word)
  (hopening : mayEnd word opening = false) (hclosing : mayStart word closing = false)
  (hmark : ¬word <:+: lineBreakMark)

include hline hopening in
/-- What begins afresh stays apart from everything before it. -/
theorem Fresh.apart {ys : List Char} (h : Fresh ys) (xs : List Char) : Apart word xs ys := by
  cases h with
  | nil => exact fun _ _ _ _ ht _ hys => ht (List.prefix_nil.mp hys)
  | line cs => exact apart_of_notMem hline
  | tag h => exact apart_of_starts hopening h

include hne hline in
/-- A line break in front does not bring about a word. -/
theorem absent_line {cs : List Char} (h : ¬word <:+: cs) : ¬word <:+: '\n' :: cs := by
  obtain ⟨c, word, rfl⟩ := List.exists_cons_of_ne_nil hne
  rw [List.infix_cons_iff, not_or]
  refine ⟨fun hword => hline ?_, h⟩
  rw [(List.cons_prefix_cons.mp hword).1]
  exact List.mem_cons_self

include hne hline hopening hclosing hmark in
/-- Folding puts no trim mark together. -/
theorem absent_foldLines {fold : Fold} {lines : List (List Char)}
    (hheld : ∀ tag ∈ fold.held, closing <:+ tag ∧ ¬word <:+: tag)
    (hlines : ∀ line ∈ lines, ¬word <:+: line) : ¬word <:+: foldLines fold lines := by
  have habsent : ¬word <:+: [] := fun h => hne (List.infix_nil.mp h)
  have hheldLine : ∀ {fold : Fold}, (∀ tag ∈ fold.held, closing <:+ tag ∧ ¬word <:+: tag) →
      ¬word <:+: heldLine fold.held := by
    intro fold hheld
    cases hold : fold.held with
    | none => exact habsent
    | some tag => exact absent_line hne hline (hheld tag hold).2
  induction lines generalizing fold with
  | nil => exact hheldLine hheld
  | cons line lines ih =>
    obtain ⟨hfirst, hrest⟩ := List.forall_mem_cons.mp hlines
    have htrim : ¬word <:+: trim line := fun h => hfirst (h.trans (trim_isInfix line))
    have hputs := fold.puts_step line
    rw [foldLines_cons]
    generalize fold.step line = put at hputs
    cases hputs with
    | @holding fold' hends hheld' =>
      have hlater := @ih fold' (by rw [hheld']; rintro _ ⟨⟩; exact ⟨hends, htrim⟩) hrest
      have hfresh : Fresh (foldLines fold' lines) :=
        fresh_foldLines (.inr (by rw [hheld']; rfl)) lines
      exact absent_append_of_apart (hheldLine hheld) hlater (hfresh.apart hline hopening _)
    | @writing separator own fold' hown hseparator hstarted hheld' =>
      have hlater := @ih fold' (by simp [hheld']) hrest
      have hself : ¬word <:+: own := by rcases hown with rfl | rfl <;> assumption
      have hwritten : ¬word <:+: fold.join separator ++ own := by
        unfold Fold.join
        cases hold : fold.held with
        | some tag =>
          have htag := hheld tag hold
          exact absent_append_of_apart (absent_line hne hline htag.2) hself
            (apart_of_ends hclosing (htag.1.trans (List.suffix_cons _ _)))
        | none =>
          rcases hseparator with rfl | ⟨htag, rfl | rfl⟩ | ⟨rfl, -⟩
          · exact absent_line hne hline hself
          · exact hself
          · exact absent_append_of_apart hmark hself (apart_of_starts hopening htag)
          · exact hself
      rcases hstarted with hnil | hstarted
      · rw [hnil]
        exact hlater
      · exact absent_append_of_apart hwritten hlater
          ((fresh_foldLines (.inl hstarted) lines).apart hline hopening _)

end Absent

/-! ### Line breaks -/

/-- The line as folding writes it: a tag of a block loses the white space around it. -/
def ownText (line : List Char) : List Char :=
  if lineKind (trim line) = .text then line else trim line

/-- Whether a line keeps the line break between it and the line before it: no tag that opens a block
does, no tag that closes one right behind another such tag, and behind an else tag only an else
tag. -/
def KeepsBreak (line next : List Char) : Prop :=
  lineKind (trim next) ≠ .opening ∧
    (lineKind (trim line) = .closing → lineKind (trim next) ≠ .closing) ∧
    (lineKind (trim line) = .branch → lineKind (trim next) = .branch)

instance (line next : List Char) : Decidable (KeepsBreak line next) :=
  inferInstanceAs (Decidable (_ ∧ _))

/-- What is remembered behind a line, when something has been put out. -/
structure Fold.Behind (fold : Fold) (line : List Char) : Prop where
  started : fold.started = true
  afterClosing : fold.afterClosing = true ↔ lineKind (trim line) = .closing
  held : fold.held = if lineKind (trim line) = .branch then some (trim line) else none

/-- After a step the fold is behind the line. -/
theorem Fold.behind_step {fold : Fold} (h : fold.started = true) (line : List Char) :
    (fold.step line).2.Behind line := by
  unfold Fold.step
  dsimp only
  cases hkind : lineKind (trim line) <;> exact ⟨by simp [h], by simp [hkind], by simp [hkind]⟩

/-- Trimming a line does not give it line breaks. -/
theorem count_trim {line : List Char} (h : '\n' ∉ line) : (trim line).count '\n' = 0 :=
  List.count_eq_zero.mpr fun hmem => h ((trim_isInfix line).mem hmem)

/-- What a line writes has no line breaks. -/
theorem count_ownText {line : List Char} (h : '\n' ∉ line) : (ownText line).count '\n' = 0 := by
  unfold ownText
  split
  · exact List.count_eq_zero.mpr h
  · exact count_trim h

section Breaks

variable {fold : Fold} {line next : List Char} (h : fold.Behind line)
include h

/-- A line that keeps its break is put out on a line of its own, once what is held back is counted
with it. -/
theorem Fold.Behind.step_of_keepsBreak (hkeeps : KeepsBreak line next) :
    (fold.step next).1 ++ heldLine (fold.step next).2.held =
      heldLine fold.held ++ '\n' :: ownText next := by
  obtain ⟨hopening, hclosing, hbranch⟩ := hkeeps
  have hnone : lineKind (trim next) ≠ .branch → fold.held = none := fun hnext => by
    rw [h.held, if_neg fun hline => hnext (hbranch hline)]
  unfold Fold.step ownText
  dsimp only
  cases hkind : lineKind (trim next) with
  | opening => exact absurd hkind hopening
  | closing =>
    have hafter : ¬fold.afterClosing = true := fun hafter =>
      hclosing (h.afterClosing.mp hafter) hkind
    simp [hnone (by rw [hkind]; decide), Fold.join, heldLine, hafter]
  | branch => simp [heldLine]
  | text => simp [hnone (by rw [hkind]; decide), Fold.join, heldLine, h.started]

/-- A line that does not keep its break adds no line break. -/
theorem Fold.Behind.count_step_le (hnext : '\n' ∉ next) (hkeeps : ¬KeepsBreak line next) :
    ((fold.step next).1 ++ heldLine (fold.step next).2.held).count '\n' ≤
      (heldLine fold.held).count '\n' := by
  have hmark : lineBreakMark.count '\n' = 0 := by decide
  have htrim : (trim next).count '\n' = 0 := count_trim hnext
  have htext : next.count '\n' = 0 := List.count_eq_zero.mpr hnext
  -- Behind an else tag, that tag has the only line break.
  by_cases hline : lineKind (trim line) = .branch
  · have hheld : fold.held = some (trim line) := by rw [h.held, if_pos hline]
    have hnot : lineKind (trim next) ≠ .branch := by
      intro hbranch
      refine hkeeps ⟨by rw [hbranch]; decide, ?_, fun _ => hbranch⟩
      rw [hline]
      simp
    unfold Fold.step
    dsimp only
    cases hkind : lineKind (trim next) with
    | branch => exact absurd hkind hnot
    | opening | closing | text => simp [hheld, Fold.join, heldLine, htrim, htext]
  · have hheld : fold.held = none := by rw [h.held, if_neg hline]
    have hdrops : lineKind (trim next) = .opening ∨
        lineKind (trim line) = .closing ∧ lineKind (trim next) = .closing := by
      by_contra hnot
      rw [not_or, not_and] at hnot
      exact hkeeps ⟨hnot.1, hnot.2, fun hbranch => absurd hbranch hline⟩
    unfold Fold.step
    dsimp only
    rcases hdrops with hkind | ⟨hclosing, hkind⟩
    · simp only [hkind, hheld, Fold.join, heldLine, List.append_nil, List.count_append, htrim]
      split <;> simp [hmark]
    · rw [hkind]
      simp [hheld, Fold.join, heldLine, htrim, h.afterClosing.mpr hclosing]

end Breaks

/-- When all lines keep their breaks, each of them is put out on a line of its own. -/
theorem foldLines_of_chain {fold : Fold} {line : List Char} (h : fold.Behind line)
    {lines : List (List Char)} (hchain : (line :: lines).IsChain KeepsBreak) :
    foldLines fold lines = heldLine fold.held ++ lines.flatMap ('\n' :: ownText ·) := by
  induction lines generalizing fold line with
  | nil => simp [foldLines]
  | cons next lines ih =>
    obtain ⟨hkeeps, hrest⟩ := List.isChain_cons_cons.mp hchain
    rw [foldLines_cons, ih (Fold.behind_step h.started next) hrest, ← List.append_assoc,
      h.step_of_keepsBreak hkeeps, List.append_assoc, List.flatMap_cons]

/-- Folded lines have at most as many line breaks as there are lines. -/
theorem count_foldLines_le {fold : Fold} {line : List Char} (h : fold.Behind line)
    {lines : List (List Char)} (hlines : ∀ l ∈ lines, '\n' ∉ l) :
    (foldLines fold lines).count '\n' ≤ (heldLine fold.held).count '\n' + lines.length := by
  induction lines generalizing fold line with
  | nil => exact Nat.le_refl _
  | cons next lines ih =>
    obtain ⟨hnext, hrest⟩ := List.forall_mem_cons.mp hlines
    have hlater := ih (Fold.behind_step h.started next) hrest
    have hown := count_ownText hnext
    have hstep : ((fold.step next).1 ++ heldLine (fold.step next).2.held).count '\n' ≤
        (heldLine fold.held).count '\n' + 1 := by
      by_cases hkeeps : KeepsBreak line next
      · rw [h.step_of_keepsBreak hkeeps, List.count_append, List.count_cons_self, hown]
      · exact Nat.le_succ_of_le (h.count_step_le hnext hkeeps)
    rw [List.count_append] at hstep
    rw [foldLines_cons, List.count_append, List.length_cons]
    omega

/-- When a line does not keep its break, fewer line breaks are put out than there are lines. -/
theorem count_foldLines_lt {fold : Fold} {line : List Char} (h : fold.Behind line)
    {lines : List (List Char)} (hlines : ∀ l ∈ lines, '\n' ∉ l)
    (hchain : ¬(line :: lines).IsChain KeepsBreak) :
    (foldLines fold lines).count '\n' < (heldLine fold.held).count '\n' + lines.length := by
  induction lines generalizing fold line with
  | nil => exact absurd (.singleton line) hchain
  | cons next lines ih =>
    obtain ⟨hnext, hrest⟩ := List.forall_mem_cons.mp hlines
    have hbehind := Fold.behind_step h.started next
    have hown := count_ownText hnext
    rw [foldLines_cons, List.count_append, List.length_cons]
    rw [List.isChain_cons_cons, not_and] at hchain
    by_cases hkeeps : KeepsBreak line next
    · have hlater := ih hbehind hrest (hchain hkeeps)
      have hstep := congrArg (List.count '\n') (h.step_of_keepsBreak hkeeps)
      rw [List.count_append, List.count_append, List.count_cons_self, hown] at hstep
      omega
    · have hlater := count_foldLines_le hbehind hrest
      have hstep := h.count_step_le hnext hkeeps
      rw [List.count_append] at hstep
      omega

/-! ### The first line -/

/-- A tag that is held back is put out behind a line break. -/
theorem exists_foldLines_of_held {fold : Fold} (h : fold.held.isSome)
    (lines : List (List Char)) : ∃ more, foldLines fold lines = '\n' :: more := by
  obtain ⟨tag, htag⟩ := Option.isSome_iff_exists.mp h
  cases lines with
  | nil => exact ⟨tag, by rw [foldLines, htag]; rfl⟩
  | cons line lines =>
    rw [foldLines_cons]
    unfold Fold.step
    dsimp only
    cases lineKind (trim line) <;> simp only [Fold.join, heldLine, htag] <;> exact ⟨_, rfl⟩

/-- A first line that is text or opens a block is put out as it is written; any other one is put out
behind a line break. -/
theorem foldLines_first {first : List Char} (hne : first ≠ []) (rest : List (List Char)) :
    (∃ fold : Fold, fold.Behind first ∧ fold.held = none ∧
        (lineKind (trim first) = .text ∨ lineKind (trim first) = .opening) ∧
        foldLines {} (first :: rest) = ownText first ++ foldLines fold rest) ∨
      ¬(lineKind (trim first) = .text ∨ lineKind (trim first) = .opening) ∧
        ∃ more, foldLines {} (first :: rest) = '\n' :: more := by
  rw [foldLines_cons]
  unfold Fold.step ownText
  dsimp only
  cases hkind : lineKind (trim first) with
  | opening =>
    exact .inl ⟨{ started := true }, ⟨rfl, by simp [hkind], by simp [hkind]⟩, rfl, .inr rfl, rfl⟩
  | text =>
    refine .inl ⟨{ started := true, onlyOpenings := false },
      ⟨rfl, by simp [hkind], by simp [hkind]⟩, rfl, .inl rfl, ?_⟩
    have hstarted : (!first.isEmpty) = true := by simpa using hne
    simp [Fold.join, hstarted]
  | closing => exact .inr ⟨by simp, _, rfl⟩
  | branch =>
    exact .inr ⟨by simp, exists_foldLines_of_held rfl rest⟩

/-- The lines of a text that folding leaves as it is. -/
structure InPlace (lines : List (List Char)) : Prop where
  /-- No tag of a block has white space beside it. -/
  trimmed : ∀ line ∈ lines, lineKind (trim line) ≠ .text → trim line = line
  /-- Only text or a tag that opens a block may come first. -/
  first : ∀ line ∈ lines.head?, lineKind (trim line) = .text ∨ lineKind (trim line) = .opening
  breaks : lines.IsChain KeepsBreak

/-- Lines of text are in place. -/
theorem InPlace.of_text {lines : List (List Char)}
    (h : ∀ line ∈ lines, lineKind (trim line) = .text) : InPlace lines where
  trimmed line hline hkind := absurd (h line hline) hkind
  first line hline := .inl (h line (List.mem_of_mem_head? hline))
  breaks := by
    refine List.Pairwise.isChain (List.pairwise_of_forall_mem_list fun line hline next hnext => ?_)
    simp [KeepsBreak, h line hline, h next hnext]

/-- A line writes itself exactly if it is text or has nothing to trim. -/
theorem ownText_eq_self_iff {line : List Char} :
    ownText line = line ↔ (lineKind (trim line) ≠ .text → trim line = line) := by
  unfold ownText
  split
  · next htext => simp [htext]
  · next htext => simp [htext]

/-- Lines are written as they are only one by one. -/
theorem intercalate_ownText_eq_iff {first : List Char} {rest : List (List Char)}
    (hbreak : ∀ line ∈ first :: rest, '\n' ∉ line) :
    ['\n'].intercalate ((first :: rest).map ownText) = ['\n'].intercalate (first :: rest) ↔
      ∀ line ∈ first :: rest, ownText line = line := by
  have hown : ∀ line ∈ (first :: rest).map ownText, '\n' ∉ line := by
    intro line hline
    obtain ⟨l, hl, rfl⟩ := List.mem_map.mp hline
    exact List.count_eq_zero.mp (count_ownText (hbreak l hl))
  constructor
  · intro hsame
    have hsplit := congrArg (splitOn (· == '\n')) hsame
    rw [List.map_cons] at hown hsplit
    rw [splitOn_intercalate hown, splitOn_intercalate hbreak, ← List.map_cons] at hsplit
    exact List.map_inj_left.mp (hsplit.trans (List.map_id _).symm)
  · intro hsame
    rw [(List.map_congr_left hsame).trans (List.map_id _)]

/-- Behind a first line that is put out at once, the others are put out as they are only when they
keep their breaks. -/
theorem foldLines_eq_iff_of_behind {fold : Fold} {first : List Char} {rest : List (List Char)}
    (hbehind : fold.Behind first) (hheld : fold.held = none)
    (hbreak : ∀ line ∈ first :: rest, '\n' ∉ line) :
    ownText first ++ foldLines fold rest = ['\n'].intercalate (first :: rest) ↔
      (first :: rest).IsChain KeepsBreak ∧ ∀ line ∈ first :: rest, ownText line = line := by
  obtain ⟨hfirst, hrest⟩ := List.forall_mem_cons.mp hbreak
  by_cases hchain : (first :: rest).IsChain KeepsBreak
  · have hwritten : ownText first ++ foldLines fold rest =
        ['\n'].intercalate ((first :: rest).map ownText) := by
      rw [foldLines_of_chain hbehind hchain, hheld, heldLine, List.nil_append, List.map_cons,
        intercalate_cons, List.flatMap_map]
    rw [hwritten, intercalate_ownText_eq_iff hbreak, and_iff_right hchain]
  · refine iff_of_false (fun hsame => ?_) fun h => hchain h.1
    have hfewer := count_foldLines_lt hbehind hrest hchain
    have hbreaks := congrArg (List.count '\n') hsame
    rw [count_intercalate hbreak, List.count_append, count_ownText hfirst] at hbreaks
    rw [hheld, heldLine, List.count_nil] at hfewer
    omega

/-- Folding lines leaves them as they are exactly when all of them are in place. -/
theorem foldLines_eq_intercalate_iff {first : List Char} {rest : List (List Char)}
    (hbreak : ∀ line ∈ first :: rest, '\n' ∉ line) (hne : first ≠ []) :
    foldLines {} (first :: rest) = ['\n'].intercalate (first :: rest) ↔
      InPlace (first :: rest) := by
  rcases foldLines_first hne rest with ⟨fold, hbehind, hheld, hkind, hput⟩ | ⟨hkind, more, hmore⟩
  · rw [hput, foldLines_eq_iff_of_behind hbehind hheld hbreak]
    constructor
    · rintro ⟨hchain, hsame⟩
      refine ⟨fun line hline => ownText_eq_self_iff.mp (hsame line hline), ?_, hchain⟩
      rintro line ⟨⟩
      exact hkind
    · rintro ⟨htrimmed, -, hchain⟩
      exact ⟨hchain, fun line hline => ownText_eq_self_iff.mpr (htrimmed line hline)⟩
  · refine iff_of_false (fun hsame => ?_) fun h => hkind (h.first first rfl)
    obtain ⟨c, cs, rfl⟩ := List.exists_cons_of_ne_nil hne
    rw [hmore, intercalate_cons, List.cons_append] at hsame
    exact hbreak _ List.mem_cons_self ((List.cons.inj hsame).1 ▸ List.mem_cons_self)

/-! ### Tags of blocks and their likes -/

/-- How the tags of blocks start behind their braces, but for a lone caret. -/
def blockStarts : List (List Char) :=
  [['#'], ['/'], ['e', 'l', 's', 'e']]

/-- Whether a line is one tag and nothing else, and the tag opens a block, closes one, or is an else
tag. -/
def isBlockTag (line : List Char) : Bool :=
  match cut line with
  | [.tag contents] =>
    contents == ['^'] || ['#'].isPrefixOf contents || ['/'].isPrefixOf contents ||
      ['e', 'l', 's', 'e'].isPrefixOf contents && endsWord (contents.drop 4)
  | _ => false

/-- Whether a line starts and ends as the tags of blocks do, and is something else: several tags, a
tag that is not closed, or one tag whose name goes on behind `else`. -/
def resemblesBlockTag (line : List Char) : Bool :=
  closing.isSuffixOf line && blockStarts.any (fun start => (opening ++ start).isPrefixOf line) &&
    match cut line with
    | [.tag contents] =>
      ['e', 'l', 's', 'e'].isPrefixOf contents && !endsWord (contents.drop 4)
    | _ => true

/-- A line that is cut into one tag is that tag. -/
theorem line_of_cut {line contents : List Char} (h : cut line = [.tag contents]) :
    line = opening ++ contents ++ closing := by
  have htext := text_cut line
  rw [h] at htext
  simpa [Piece.text] using htext.symm

section Kinds

variable {line : List Char} (hbefore : ¬opening ++ ['~'] <:+: line)
  (hafter : ¬ '~' :: closing <:+: line)
include hbefore hafter

/-- A line is taken for the tag of a block by its first and its last characters. -/
theorem lineKind_ne_text_iff_starts : lineKind line ≠ .text ↔
    closing <:+ line ∧
      ((∃ start ∈ blockStarts, opening ++ start <+: line) ∨ line = opening ++ '^' :: closing) := by
  by_cases htag : opening <+: line ∧ closing <:+ line
  · obtain ⟨⟨rest, rfl⟩, hends⟩ := htag
    have hrest : tagLine? (opening ++ rest) = some rest := by
      have hmark : ∀ more, rest ≠ '~' :: more := by
        rintro more rfl
        exact hbefore ⟨[], more, rfl⟩
      refine (if_pos (List.isSuffixOf_iff_suffix.mpr hends)).trans ?_
      split
      · next heq => exact absurd heq (hmark _)
      · rfl
    have hcaret : opening ++ rest = opening ++ '^' :: closing ↔ rest = '^' :: closing :=
      List.append_right_inj opening
    simp only [hends, true_and, List.prefix_append_right_inj, hcaret, blockStarts, List.mem_cons,
      List.not_mem_nil, or_false, exists_eq_or_imp, exists_eq_left]
    unfold lineKind
    rw [hrest]
    split
    · next heq => simp [Option.some.inj heq]
    · next heq => simp [Option.some.inj heq]
    · next heq => simp [Option.some.inj heq]
    · next heq => simp [Option.some.inj heq, closing]
    · next heq => exact absurd ⟨opening ++ ['^'], [], by simp [Option.some.inj heq, closing]⟩ hafter
    · next hhash hslash helse hcaret _ =>
      refine iff_of_false (fun h => h rfl) ?_
      rintro ((⟨more, rfl⟩ | ⟨more, rfl⟩ | ⟨more, rfl⟩) | rfl)
      · exact hhash more rfl
      · exact hslash more rfl
      · exact helse more rfl
      · exact hcaret rfl
  · refine iff_of_false (fun h => h ?_) ?_
    · rw [lineKind, tagLine?_eq_none (not_and_or.mp htag)]
    · rintro ⟨hends, ⟨start, -, hstart⟩ | rfl⟩
      · exact htag ⟨(List.prefix_append opening start).trans hstart, hends⟩
      · exact htag ⟨List.prefix_append .., hends⟩

/-- The lines that are taken for tags of blocks are these tags, and what resembles them. -/
theorem lineKind_ne_text_iff :
    lineKind line ≠ .text ↔ isBlockTag line = true ∨ resemblesBlockTag line = true := by
  rw [lineKind_ne_text_iff_starts hbefore hafter]
  by_cases hsole : ∃ contents, cut line = [.tag contents]
  · obtain ⟨contents, hcut⟩ := hsole
    have hline := line_of_cut hcut
    have hstart : ∀ start : List Char, '\x7d' ∉ start →
        (opening ++ start <+: line ↔ start <+: contents) := by
      intro start hbrace
      rw [hline, List.append_assoc, List.prefix_append_right_inj]
      exact ⟨prefix_of_notMem hbrace, fun h => h.trans (List.prefix_append _ _)⟩
    have hcaret : line = opening ++ '^' :: closing ↔ contents = ['^'] := by
      rw [hline, List.append_assoc, List.append_right_inj]
      change contents ++ closing = ['^'] ++ closing ↔ _
      exact List.append_left_inj closing
    have hends : closing <:+ line := hline ▸ List.suffix_append _ _
    simp only [isBlockTag, resemblesBlockTag, hcut, blockStarts, hcaret, hends, true_and,
      List.mem_cons, List.not_mem_nil, or_false, exists_eq_or_imp, exists_eq_left,
      hstart ['#'] (by decide), hstart ['/'] (by decide), hstart ['e', 'l', 's', 'e'] (by decide),
      List.any_cons, List.any_nil, Bool.or_false, Bool.or_eq_true, Bool.and_eq_true, beq_iff_eq,
      List.isPrefixOf_iff_prefix, List.isSuffixOf_iff_suffix, Bool.not_eq_true']
    cases endsWord (contents.drop 4) <;> simp only [Bool.false_eq_true] <;> tauto
  · have hcaret : line ≠ opening ++ '^' :: closing := by
      rintro rfl
      exact hsole ⟨['^'], by decide⟩
    have hnot : isBlockTag line = false := by
      unfold isBlockTag
      split
      · next contents hcut => exact absurd ⟨contents, hcut⟩ hsole
      · rfl
    have hresembles : resemblesBlockTag line = true ↔
        closing <:+ line ∧ ∃ start ∈ blockStarts, opening ++ start <+: line := by
      unfold resemblesBlockTag
      split
      · next contents hcut => exact absurd ⟨contents, hcut⟩ hsole
      · simp [List.isPrefixOf_iff_prefix, List.isSuffixOf_iff_suffix]
    simp [hnot, hresembles, hcaret]

end Kinds

/-! ### Texts that are left alone -/

/-- Folding leaves a text without trim marks as it is, whose first line is not empty, when none of
its lines, without the white space around it, is a tag of a block or resembles one; and otherwise
exactly when all lines are in place. The lines that are no tags of blocks and do not resemble one
are always in place behind each other. -/
theorem fold_eq_self_iff {first : List Char} {rest : List (List Char)}
    (hbreak : ∀ line ∈ first :: rest, '\n' ∉ line) (hne : first ≠ [])
    (hmarks : ∀ line ∈ first :: rest, ¬opening ++ ['~'] <:+: line ∧ ¬ '~' :: closing <:+: line) :
    let text := String.ofList (['\n'].intercalate (first :: rest))
    ((∀ line ∈ first :: rest, isBlockTag (trim line) = false ∧
        resemblesBlockTag (trim line) = false) → fold text = text) ∧
      (fold text = text ↔ InPlace (first :: rest)) ∧
      ∀ line ∈ first :: rest, lineKind (trim line) ≠ .text ↔
        isBlockTag (trim line) = true ∨ resemblesBlockTag (trim line) = true := by
  intro text
  have hkinds : ∀ line ∈ first :: rest, lineKind (trim line) ≠ .text ↔
      isBlockTag (trim line) = true ∨ resemblesBlockTag (trim line) = true := fun line hline =>
    lineKind_ne_text_iff (fun h => (hmarks line hline).1 (h.trans (trim_isInfix line)))
      fun h => (hmarks line hline).2 (h.trans (trim_isInfix line))
  have hfold : fold text = String.ofList (foldLines {} (first :: rest)) := by
    have hbefore : ¬opening ++ ['~'] <:+: foldLines {} (first :: rest) :=
      absent_foldLines (by decide) (by decide) (by decide) (by decide) (by decide) (by simp)
        fun line hline => (hmarks line hline).1
    have hafter : ¬ '~' :: closing <:+: foldLines {} (first :: rest) :=
      absent_foldLines (by decide) (by decide) (by decide) (by decide) (by decide) (by simp)
        fun line hline => (hmarks line hline).2
    rw [fold, String.toList_ofList, splitOn_intercalate hbreak]
    exact congrArg String.ofList (carriedOut_of_absent hbefore hafter)
  have hiff : fold text = text ↔ InPlace (first :: rest) := by
    rw [hfold, String.ofList_inj]
    exact foldLines_eq_intercalate_iff hbreak hne
  refine ⟨fun hnone => hiff.mpr (.of_text fun line hline => ?_), hiff, hkinds⟩
  by_contra htext
  obtain ⟨hblock, hresembles⟩ := hnone line hline
  simpa [hblock, hresembles] using (hkinds line hline).mp htext

/-- A block on one line is taken for an opening tag, and so it is in place as the first line. -/
theorem fold_eq_self_iff_block_first :
    let first := "\x7b\x7b#if a\x7d\x7db\x7b\x7b/if\x7d\x7d".toList
    let rest := ["\x7b\x7bx\x7d\x7d".toList, "\x7b\x7belsewhere\x7d\x7d".toList]
    let text := String.ofList (['\n'].intercalate (first :: rest))
    (∀ line ∈ first :: rest, '\n' ∉ line) ∧ first ≠ [] ∧
      (∀ line ∈ first :: rest, ¬opening ++ ['~'] <:+: line ∧ ¬ '~' :: closing <:+: line) ∧
      resemblesBlockTag first = true ∧ fold text = text := by
  intro first rest text
  have hbreak : ∀ line ∈ first :: rest, '\n' ∉ line := by decide
  have hne : first ≠ [] := by decide
  have hmarks : ∀ line ∈ first :: rest,
      ¬opening ++ ['~'] <:+: line ∧ ¬ '~' :: closing <:+: line := by decide
  have hplace : InPlace (first :: rest) := ⟨by decide, by decide, by decide⟩
  exact ⟨hbreak, hne, hmarks, by decide, (fold_eq_self_iff hbreak hne hmarks).2.1.mpr hplace⟩

/-- A line that only resembles a tag of a block loses its line break. -/
theorem fold_elsewhere_ne :
    let lines := ["a".toList, "\x7b\x7belsewhere\x7d\x7d".toList, "b".toList]
    let text := String.ofList (['\n'].intercalate lines)
    (∀ line ∈ lines, '\n' ∉ line) ∧
      (∀ line ∈ lines, ¬opening ++ ['~'] <:+: line ∧ ¬ '~' :: closing <:+: line) ∧
      (∀ line ∈ lines, isBlockTag (trim line) = false) ∧
      fold text = "a\n\x7b\x7belsewhere\x7d\x7db" ∧ fold text ≠ text := by
  decide

end Stencil.Source
