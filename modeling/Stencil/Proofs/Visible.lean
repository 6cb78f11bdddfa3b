import Stencil.Proofs.Seams
import Stencil.Proofs.Trimming

/-!
# What folding keeps

Folding moves line breaks and white space about, takes marks away, and puts in marks of its own that
stand for line breaks. All else stays as it was, in its order. What stays is told apart from white
space by `visible`. The trim marks of a text can be taken away before or after its lines are folded:
`bare` is the text with neither trim marks nor white space, and folding keeps it, up to the marks
that it puts in.

Lines are put out one by one, but for an else tag, which is held back until the next line that
writes itself. So what is still to be put out is the tag that is held, if any, and the lines that
follow. It starts with a line break or with two braces once there is something before it, so that no
trim mark lies across the seam. Only the text behind a held tag starts as it likes; the tag ends
with two braces there.

The marks that folding puts in can be told from the text when the text does not spell the word
between their braces.

## Main results

* `bare_eq_visible_trim`: carrying out the trim marks leaves what is bare of a text.
* `marked_foldLines`: folding lines only adds marks to what is bare of them.
* `Marked.replace_lineBreakMark`: the marks that have been added can be taken away again.
* `visible_fold`: folding a text keeps what is visible of it.
-/

namespace Stencil.Source

open Text

/-- The text without its white space. -/
def visible (cs : List Char) : List Char :=
  cs.filter (!isBlank ·)

@[simp] theorem visible_append (xs ys : List Char) :
    visible (xs ++ ys) = visible xs ++ visible ys :=
  List.filter_append ..

/-- White space is not visible. -/
theorem visible_cons_of_blank {c : Char} (h : isBlank c = true) (cs : List Char) :
    visible (c :: cs) = visible cs :=
  List.filter_cons_of_neg (by simp [h])

/-- What is no white space is visible. -/
theorem visible_cons {c : Char} (h : isBlank c = false) (cs : List Char) :
    visible (c :: cs) = c :: visible cs :=
  List.filter_cons_of_pos (by simp [h])

/-- In white space nothing is visible. -/
theorem visible_of_blanks {cs : List Char} (h : ∀ c ∈ cs, isBlank c = true) : visible cs = [] :=
  List.filter_eq_nil_iff.mpr fun c hc => by simp [h c hc]

/-- White space has none of the characters of a visible word. -/
theorem notMem_of_blanks {blanks word : List Char} (h : ∀ c ∈ blanks, isBlank c = true)
    (hword : word.all (!isBlank ·) = true) : ∀ c ∈ blanks, c ∉ word := fun c hc hmem => by
  simpa [h c hc] using List.all_eq_true.mp hword c hmem

/-! ### Trim marks -/

/-- The text without the trim marks that follow two opening braces. -/
def withoutBefore (cs : List Char) : List Char :=
  replace (opening ++ ['~']) opening cs

/-- The text without the trim marks that precede two closing braces. -/
def withoutAfter (cs : List Char) : List Char :=
  replace ('~' :: closing) closing cs

/-- What is visible of a text without its trim marks. -/
def bare (cs : List Char) : List Char :=
  visible (withoutAfter (withoutBefore cs))

variable {xs ys cs : List Char}

/-- Marks after tags end before any other character. -/
theorem withoutAfter_append_cons {c : Char} (h : c ∉ '~' :: closing) (xs ys : List Char) :
    withoutAfter (xs ++ c :: ys) = withoutAfter xs ++ withoutAfter (c :: ys) :=
  replace_append (by decide) (apart_of_notMem h)

section Blanks

variable {blanks : List Char} (h : ∀ c ∈ blanks, isBlank c = true)
include h

/-- White space has no marks before tags. -/
theorem withoutBefore_blanks : withoutBefore blanks = blanks :=
  replace_of_forall_notMem (by decide) (notMem_of_blanks h (by decide))

/-- White space has no marks after tags. -/
theorem withoutAfter_blanks : withoutAfter blanks = blanks :=
  replace_of_forall_notMem (by decide) (notMem_of_blanks h (by decide))

/-- White space before a brace that opens a tag plays no part in the marks after tags. -/
theorem visible_withoutAfter_blanks (xs ys : List Char) :
    visible (withoutAfter (xs ++ blanks ++ '\x7b' :: ys)) =
      visible (withoutAfter (xs ++ '\x7b' :: ys)) := by
  have hblanks : withoutAfter (xs ++ blanks) = withoutAfter xs ++ withoutAfter blanks :=
    replace_append (by decide) (apart_of_forall_notMem_right (notMem_of_blanks h (by decide)))
  rw [withoutAfter_append_cons (by decide), withoutAfter_append_cons (by decide), hblanks,
    withoutAfter_blanks h]
  simp [visible_of_blanks h]

end Blanks

/-- The trimming before marks leaves what the text without these marks leaves. -/
theorem visible_withoutAfter_trimBefore (before cs : List Char) :
    visible (withoutAfter (trimBefore before cs)) =
      visible (withoutAfter (before.reverse ++ withoutBefore cs)) := by
  fun_induction trimBefore before cs with
  | case1 before rest ih =>
    have hword : withoutBefore ('\x7b' :: '\x7b' :: '~' :: rest) =
        opening ++ withoutBefore rest := replace_word (by decide) rest
    have hblanks : ∀ c ∈ (before.takeWhile isBlank).reverse, isBlank c = true := fun c hc =>
      List.mem_takeWhile_imp (List.mem_reverse.mp hc)
    have hbefore : before.reverse =
        (before.dropWhile isBlank).reverse ++ (before.takeWhile isBlank).reverse := by
      rw [← List.reverse_append, List.takeWhile_append_dropWhile]
    have hskip := visible_withoutAfter_blanks hblanks (before.dropWhile isBlank).reverse
      ('\x7b' :: withoutBefore rest)
    rw [ih, hword, hbefore, opening, List.cons_append, List.cons_append, List.nil_append, hskip]
    simp
  | case2 before c rest hne ih =>
    have hword : ¬opening ++ ['~'] <+: c :: rest := by
      rintro ⟨more, hmore⟩
      obtain ⟨rfl, rfl⟩ := List.cons.inj hmore
      exact hne more rfl rfl
    rw [ih, withoutBefore, withoutBefore, replace_cons hword]
    simp
  | case3 before => simp [withoutBefore]

/-- The trimming after marks leaves what the text without these marks leaves. -/
theorem visible_trimAfter (trimming : Bool) (cs : List Char) :
    visible (trimAfter trimming cs) = visible (withoutAfter cs) := by
  have hcons : ∀ {c : Char} {rest : List Char},
      (∀ more, c = '~' → rest = '\x7d' :: '\x7d' :: more → False) →
        withoutAfter (c :: rest) = c :: withoutAfter rest := by
    intro c rest hne
    refine replace_cons ?_
    rintro ⟨more, hmore⟩
    obtain ⟨rfl, rfl⟩ := List.cons.inj hmore
    exact hne more rfl rfl
  fun_induction trimAfter trimming cs with
  | case1 trimming rest ih =>
    have hword : withoutAfter ('~' :: '\x7d' :: '\x7d' :: rest) = closing ++ withoutAfter rest :=
      replace_word (by decide) rest
    rw [hword, visible_append, ← ih]
    rfl
  | case2 trimming c rest hne htrim ih =>
    rw [Bool.and_eq_true] at htrim
    rw [hcons hne, visible_cons_of_blank htrim.2, ih]
  | case3 trimming c rest hne htrim ih =>
    rw [hcons hne]
    exact (visible_append [c] _).trans ((congrArg _ ih).trans (visible_append [c] _).symm)
  | case4 trimming => rfl

/-- Carrying out the trim marks leaves what is bare of a text. -/
theorem bare_eq_visible_trim (cs : List Char) :
    visible (trimAfter false (trimBefore [] cs)) = bare cs := by
  rw [visible_trimAfter, visible_withoutAfter_trimBefore]
  rfl

/-! ### Seams without marks -/

/-- A text that no trim mark reaches into from what stands before it. -/
inductive Fresh : List Char → Prop where
  | nil : Fresh []
  | line (cs : List Char) : Fresh ('\n' :: cs)
  | tag {cs : List Char} (h : opening <+: cs) : Fresh cs

/-- Texts with no mark across their seam are bare each for itself. -/
theorem bare_append_of_apart (hbefore : Apart (opening ++ ['~']) xs ys)
    (hafter : Apart ('~' :: closing) (withoutBefore xs) (withoutBefore ys)) :
    bare (xs ++ ys) = bare xs ++ bare ys := by
  have hfirst : withoutBefore (xs ++ ys) = withoutBefore xs ++ withoutBefore ys :=
    replace_append (by decide) hbefore
  have hsecond : withoutAfter (withoutBefore xs ++ withoutBefore ys) =
      withoutAfter (withoutBefore xs) ++ withoutAfter (withoutBefore ys) :=
    replace_append (by decide) hafter
  rw [bare, hfirst, hsecond, visible_append]
  rfl

/-- No mark before a tag starts at another character. -/
theorem withoutBefore_cons {c : Char} (h : c ≠ '\x7b') (cs : List Char) :
    withoutBefore (c :: cs) = c :: withoutBefore cs :=
  replace_cons fun hword => h (List.cons_prefix_cons.mp hword).1.symm

/-- What starts with a brace still does so without the marks behind braces. -/
theorem exists_withoutBefore_brace (cs : List Char) :
    ∃ more, withoutBefore ('\x7b' :: cs) = '\x7b' :: more := by
  by_cases h : opening ++ ['~'] <+: '\x7b' :: cs
  · obtain ⟨rest, hrest⟩ := h
    refine ⟨'\x7b' :: withoutBefore rest, ?_⟩
    rw [← hrest, withoutBefore, replace_word (by decide)]
    rfl
  · exact ⟨withoutBefore cs, replace_cons h⟩

/-- What is bare of two texts is what is bare of the one and of the other, when no trim mark reaches
into the second one. -/
theorem bare_append (h : Fresh ys) (xs : List Char) : bare (xs ++ ys) = bare xs ++ bare ys := by
  cases h with
  | nil => rw [List.append_nil, show bare [] = [] from rfl, List.append_nil]
  | line cs =>
    refine bare_append_of_apart (apart_of_notMem (by decide)) ?_
    rw [withoutBefore_cons (by decide)]
    exact apart_of_notMem (by decide)
  | tag h =>
    refine bare_append_of_apart (apart_of_starts (by decide) h) ?_
    obtain ⟨rest, rfl⟩ := h
    obtain ⟨more, hmore⟩ := exists_withoutBefore_brace ('\x7b' :: rest)
    have hfirst : withoutBefore (opening ++ rest) = '\x7b' :: more := hmore
    rw [hfirst]
    exact apart_of_notMem (by decide)

/-- What is bare of a text behind the end of a tag is what is bare of the tag and of the text. -/
theorem bare_append_of_closing (h : closing <:+ xs) (ys : List Char) :
    bare (xs ++ ys) = bare xs ++ bare ys := by
  have hends : closing <:+ withoutBefore xs := by
    obtain ⟨tag, rfl⟩ := h
    have hclosing : withoutBefore (tag ++ closing) = withoutBefore tag ++ withoutBefore closing :=
      replace_append (by decide) (apart_of_notMem (by decide))
    rw [hclosing]
    exact List.suffix_append _ _
  exact bare_append_of_apart (apart_of_ends (by decide) h) (apart_of_ends (by decide) hends)

section Blanks

variable {blanks : List Char} (h : ∀ c ∈ blanks, isBlank c = true)
include h

/-- Of white space nothing is bare. -/
theorem bare_blanks : bare blanks = [] := by
  rw [bare, withoutBefore_blanks h, withoutAfter_blanks h, visible_of_blanks h]

/-- White space before a text plays no part in what is bare of it. -/
theorem bare_blanks_append (cs : List Char) : bare (blanks ++ cs) = bare cs := by
  rw [bare_append_of_apart, bare_blanks h, List.nil_append]
  · exact apart_of_forall_notMem (notMem_of_blanks h (by decide))
  · rw [withoutBefore_blanks h]
    exact apart_of_forall_notMem (notMem_of_blanks h (by decide))

/-- White space behind a text plays no part in what is bare of it. -/
theorem bare_append_blanks (cs : List Char) : bare (cs ++ blanks) = bare cs := by
  rw [bare_append_of_apart, bare_blanks h, List.append_nil]
  · exact apart_of_forall_notMem_right (notMem_of_blanks h (by decide))
  · rw [withoutBefore_blanks h]
    exact apart_of_forall_notMem_right (notMem_of_blanks h (by decide))

end Blanks

/-- A line break in front leaves what is bare as it is. -/
theorem bare_line (cs : List Char) : bare ('\n' :: cs) = bare cs :=
  @bare_blanks_append ['\n'] (List.forall_mem_singleton.mpr (by decide)) cs

/-- White space at the ends of a text plays no part in what is bare of it. -/
theorem bare_trim (cs : List Char) : bare (trim cs) = bare cs := by
  have hstart : bare (trimStart cs) = bare cs := by
    have hblanks : ∀ c ∈ cs.takeWhile isBlank, isBlank c = true := fun c hc =>
      List.mem_takeWhile_imp hc
    rw [← bare_blanks_append hblanks, takeWhile_append_trimStart]
  have hend : bare (trimEnd (trimStart cs)) = bare (trimStart cs) := by
    have hblanks : ∀ c ∈ ((trimStart cs).reverse.takeWhile isBlank).reverse, isBlank c = true :=
      fun c hc => List.mem_takeWhile_imp (List.mem_reverse.mp hc)
    rw [← bare_append_blanks hblanks, trimEnd_append]
  rw [trim, hend, hstart]

/-! ### Lines -/

/-- The second text is the first one with marks for line breaks put in. -/
inductive Marked : List Char → List Char → Prop where
  | nil : Marked [] []
  | keep {w m : List Char} (c : Char) (h : Marked w m) : Marked (c :: w) (c :: m)
  | mark {w m : List Char} (h : Marked w m) : Marked w (lineBreakMark ++ m)

/-- A text is marked by nothing. -/
theorem Marked.refl (w : List Char) : Marked w w := by
  induction w with
  | nil => exact .nil
  | cons c w ih => exact .keep c ih

/-- Texts after each other are marked each for itself. -/
theorem Marked.append {w w' m m' : List Char} (h : Marked w m) (h' : Marked w' m') :
    Marked (w ++ w') (m ++ m') := by
  induction h with
  | nil => exact h'
  | keep c _ ih => exact .keep c ih
  | mark _ ih =>
    rw [List.append_assoc]
    exact .mark ih

/-- Where no braces are, a marked text begins like the text. -/
theorem Marked.prefix_of_notMem {w m start : List Char} (h : Marked w m) (hnot : '\x7b' ∉ start)
    (hstart : start <+: m) : start <+: w := by
  induction h generalizing start with
  | nil => exact hstart
  | keep c _ ih =>
    cases start with
    | nil => exact List.nil_prefix
    | cons d start =>
      obtain ⟨rfl, hrest⟩ := List.cons_prefix_cons.mp hstart
      rw [List.mem_cons, not_or] at hnot
      exact List.cons_prefix_cons.mpr ⟨rfl, ih hnot.2 hrest⟩
  | mark _ ih =>
    cases start with
    | nil => exact List.nil_prefix
    | cons d start =>
      obtain ⟨rfl, -⟩ := List.cons_prefix_cons.mp hstart
      exact absurd List.mem_cons_self hnot

/-- The marks that have been put in are taken away again, when the text does not spell their
word. -/
theorem Marked.replace_lineBreakMark {w m : List Char} (h : Marked w m)
    (hword : ¬"NEWLINE".toList <:+: w) : replace lineBreakMark [] m = w := by
  induction h with
  | nil => exact replace_nil _ _
  | @keep w m c h ih =>
    have hrest : ¬"NEWLINE".toList <:+: w := fun hpart =>
      hword (hpart.trans (List.suffix_cons c w).isInfix)
    have hmark : ¬lineBreakMark <+: c :: m := by
      intro hmark
      have htext : lineBreakMark = '\x7b' :: '\x7b' :: ("NEWLINE".toList ++ closing) := rfl
      rw [htext] at hmark
      obtain ⟨rfl, hbrace⟩ := List.cons_prefix_cons.mp hmark
      -- The second brace of the mark is one of the text, and then so is its word.
      cases h with
      | nil => cases List.prefix_nil.mp hbrace
      | @keep w m d h =>
        have hspelt : "NEWLINE".toList <+: m :=
          (List.prefix_append _ closing).trans (List.cons_prefix_cons.mp hbrace).2
        have hstart := h.prefix_of_notMem (by decide) hspelt
        exact hrest (hstart.isInfix.trans (List.suffix_cons d w).isInfix)
      | mark h => cases (List.cons_prefix_cons.mp (List.cons_prefix_cons.mp hbrace).2).1
    rw [replace_cons hmark, ih hrest]
  | mark h ih => rw [replace_word (by decide), ih hword, List.nil_append]

/-! ### One line after the other -/

/-- What comes between the lines before and a line that writes itself: a line break, or nothing or a
mark before a tag, or nothing before the first line. -/
def Fold.Separates (fold : Fold) (separator own : List Char) : Prop :=
  separator = ['\n'] ∨ (opening <+: own ∧ (separator = [] ∨ separator = lineBreakMark)) ∨
    (separator = [] ∧ fold.started = false)

/-- What a line puts out, and what is remembered after it. -/
inductive Fold.Puts (fold : Fold) (line : List Char) : List Char × Fold → Prop where
  /-- An else tag is held back, and the one before it is put out. -/
  | holding {fold' : Fold} (hclosing : closing <:+ trim line)
    (hheld : fold'.held = some (trim line)) :
    Fold.Puts fold line (heldLine fold.held, fold')
  /-- The line is put out behind the else tag that is held, or else behind a separator. -/
  | writing {separator own : List Char} {fold' : Fold} (hown : own = trim line ∨ own = line)
    (hseparator : fold.Separates separator own)
    (hstarted : fold.join separator ++ own = [] ∨ fold'.started = true)
    (hheld : fold'.held = none) :
    Fold.Puts fold line (fold.join separator ++ own, fold')

/-- A line that is no text is a tag. -/
theorem tag_of_lineKind {line : List Char} (h : lineKind line ≠ .text) :
    opening <+: line ∧ closing <:+ line := by
  by_contra htag
  refine h ?_
  rw [lineKind, tagLine?_eq_none (not_and_or.mp htag)]

/-- Every step of folding puts out its line in one of these ways. -/
theorem Fold.puts_step (fold : Fold) (line : List Char) : fold.Puts line (fold.step line) := by
  unfold Fold.step
  dsimp only
  cases hkind : lineKind (trim line) with
  | opening =>
    have htag := tag_of_lineKind (by rw [hkind]; decide)
    refine .writing (.inl rfl) (.inr (.inl ⟨htag.1, ?_⟩)) (.inr rfl) rfl
    split
    · exact .inr rfl
    · exact .inl rfl
  | closing =>
    have htag := tag_of_lineKind (by rw [hkind]; decide)
    refine .writing (.inl rfl) ?_ (.inr rfl) rfl
    split
    · exact .inr (.inl ⟨htag.1, .inl rfl⟩)
    · exact .inl rfl
  | branch => exact .holding (tag_of_lineKind (by rw [hkind]; decide)).2 rfl
  | text =>
    refine .writing (.inr rfl) ?_ ?_ rfl
    · split
      · exact .inl rfl
      · next hstarted => exact .inr (.inr ⟨rfl, by simpa using hstarted⟩)
    · cases hwritten : (fold.join (if fold.started = true then ['\n'] else []) ++ line) with
      | nil => exact .inl rfl
      | cons => exact .inr (by simp)

/-- Behind something that has been put out, nothing that follows starts in the middle of a trim
mark. -/
theorem fresh_foldLines {fold : Fold} (h : fold.started = true ∨ fold.held.isSome)
    (lines : List (List Char)) : Fresh (foldLines fold lines) := by
  induction lines generalizing fold with
  | nil =>
    rw [foldLines]
    cases fold.held with
    | none => exact .nil
    | some tag => exact .line tag
  | cons line lines ih =>
    have hputs := fold.puts_step line
    rw [foldLines]
    generalize fold.step line = put at hputs
    cases hputs with
    | holding hclosing hheld =>
      cases hold : fold.held with
      | some tag => exact .line _
      | none => exact ih (.inr (by rw [hheld]; rfl))
    | @writing separator own fold' hown hseparator hstarted hheld =>
      cases hold : fold.held with
      | some tag =>
        rw [Fold.join, hold]
        exact .line _
      | none =>
        have hfold : fold.started = true := by simpa [hold] using h
        rw [Fold.join, hold]
        rcases hseparator with rfl | ⟨htag, rfl | rfl⟩ | ⟨-, hnot⟩
        · exact .line _
        · exact .tag (htag.trans (List.prefix_append _ _))
        · exact .tag ⟨_, rfl⟩
        · rw [hfold] at hnot
          cases hnot

/-- To join a line on only adds marks to what is bare. -/
theorem marked_join {fold : Fold} {separator own : List Char}
    (hheld : ∀ tag ∈ fold.held, closing <:+ tag) (h : fold.Separates separator own) :
    Marked (bare (fold.held.getD []) ++ bare own) (bare (fold.join separator ++ own)) := by
  unfold Fold.join
  cases hold : fold.held with
  | some tag =>
    have hclosing : closing <:+ tag := hheld tag hold
    have hboth : bare ('\n' :: tag ++ own) = bare tag ++ bare own := by
      rw [List.cons_append, bare_line, bare_append_of_closing hclosing]
    rw [hboth]
    exact .refl _
  | none =>
    rcases h with rfl | ⟨htag, rfl | rfl⟩ | ⟨rfl, -⟩
    · have hline : bare (['\n'] ++ own) = bare own := bare_line own
      rw [hline]
      exact .refl _
    · exact .refl _
    · rw [bare_append (.tag htag)]
      exact .mark (.refl _)
    · exact .refl _

/-- Folding lines puts out what is bare of the tag that is held and of the lines, with marks for
line breaks put in. -/
theorem marked_foldLines {fold : Fold} (hheld : ∀ tag ∈ fold.held, closing <:+ tag)
    (lines : List (List Char)) :
    Marked (bare (fold.held.getD []) ++ lines.flatMap bare) (bare (foldLines fold lines)) := by
  induction lines generalizing fold with
  | nil =>
    rw [foldLines]
    cases fold.held with
    | none => exact .nil
    | some tag =>
      rw [heldLine, bare_line, List.flatMap_nil, List.append_nil]
      exact .refl _
  | cons line lines ih =>
    have hputs := fold.puts_step line
    rw [foldLines, List.flatMap_cons]
    generalize fold.step line = put at hputs
    cases hputs with
    | @holding fold' hclosing hheld' =>
      have hrest := @ih fold' (by rw [hheld']; rintro _ ⟨⟩; exact hclosing)
      have hfirst : bare (heldLine fold.held) = bare (fold.held.getD []) := by
        cases fold.held with
        | none => rfl
        | some tag => exact bare_line tag
      rw [hheld', Option.getD_some, bare_trim] at hrest
      rw [bare_append (fresh_foldLines (.inr (by rw [hheld']; rfl)) lines), hfirst]
      exact (Marked.refl _).append hrest
    | @writing separator own fold' hown hseparator hstarted hheld' =>
      have hrest : Marked (lines.flatMap bare) (bare (foldLines fold' lines)) := by
        simpa [hheld', show bare [] = [] from rfl] using @ih fold' (by simp [hheld'])
      have hline : bare own = bare line := by
        rcases hown with rfl | rfl
        · exact bare_trim line
        · rfl
      have hboth : bare (fold.join separator ++ own ++ foldLines fold' lines) =
          bare (fold.join separator ++ own) ++ bare (foldLines fold' lines) := by
        rcases hstarted with hnil | hstarted
        · rw [hnil]
          rfl
        · exact bare_append (fresh_foldLines (.inl hstarted) lines) _
      rw [hboth, ← List.append_assoc, ← hline]
      exact (marked_join hheld hseparator).append hrest

/-! ### The word of the marks -/

/-- Replacing a word by characters that another word does not have does not put the other word at
the start of a text. -/
theorem prefix_of_prefix_visible_replace {start word new : List Char} (hne : word ≠ [])
    {d : Char} (hd : isBlank d = false) (hnot : d ∉ start) {cs : List Char}
    (h : start <+: visible (replace word (d :: new) cs)) : start <+: visible cs := by
  induction cs using word_induction hne generalizing start with
  | nil => simpa using h
  | step c cs hword ih =>
    rw [replace_cons hword] at h
    cases hc : isBlank c with
    | true =>
      rw [visible_cons_of_blank hc] at h ⊢
      exact ih hnot h
    | false =>
      rw [visible_cons hc] at h ⊢
      cases start with
      | nil => exact List.nil_prefix
      | cons s start =>
        obtain ⟨rfl, hstart⟩ := List.cons_prefix_cons.mp h
        rw [List.mem_cons, not_or] at hnot
        exact List.cons_prefix_cons.mpr ⟨rfl, ih hnot.2 hstart⟩
  | found cs ih =>
    cases start with
    | nil => exact List.nil_prefix
    | cons s start =>
      rw [replace_word hne, List.cons_append, visible_cons hd] at h
      rw [(List.cons_prefix_cons.mp h).1, List.mem_cons, not_or] at hnot
      exact absurd rfl hnot.1

/-- Replacing a word by characters that another word does not have does not spell the other
word. -/
theorem absent_visible_replace {other word new : List Char} (hne : word ≠ []) {d : Char}
    (hnew : ∀ c ∈ new, c = d) (hd : isBlank d = false) (hnot : d ∉ other) {cs : List Char}
    (h : ¬other <:+: visible cs) : ¬other <:+: visible (replace word (d :: new) cs) := by
  have hchars : ∀ c ∈ d :: new, c = d := List.forall_mem_cons.mpr ⟨rfl, hnew⟩
  induction cs using word_induction hne with
  | nil => simpa using h
  | step c cs hword ih =>
    have hstart : ¬other <+: visible (replace word (d :: new) (c :: cs)) := fun hstart =>
      h (prefix_of_prefix_visible_replace hne hd hnot hstart).isInfix
    rw [replace_cons hword] at hstart ⊢
    cases hc : isBlank c with
    | true =>
      rw [visible_cons_of_blank hc] at h ⊢
      exact ih h
    | false =>
      rw [visible_cons hc] at h hstart ⊢
      rw [List.infix_cons_iff, not_or] at h ⊢
      exact ⟨hstart, ih h.2⟩
  | found cs ih =>
    have hrest : ¬other <:+: visible cs := fun hpart => h (by
      rw [visible_append]
      exact hpart.trans (List.suffix_append _ _).isInfix)
    have hvisible : visible (d :: new) = d :: new :=
      List.filter_eq_self.mpr fun c hc => by simp [hchars c hc, hd]
    have habsent : ¬other <:+: d :: new := by
      intro hpart
      cases other with
      | nil => exact h List.nil_infix
      | cons c other =>
        obtain rfl := hchars c (hpart.subset List.mem_cons_self)
        exact hnot List.mem_cons_self
    rw [replace_word hne, visible_append, hvisible]
    exact absent_append_of_apart habsent (ih hrest)
      (apart_of_forall_notMem fun c hc => hchars c hc ▸ hnot)

/-! ### Texts -/

/-- What is bare of lines side by side is what is bare of each of them. -/
theorem bare_intercalate (lines : List (List Char)) :
    bare (['\n'].intercalate lines) = lines.flatMap bare := by
  induction lines with
  | nil => rfl
  | cons line lines ih =>
    cases lines with
    | nil => simp [List.intercalate]
    | cons next lines =>
      have hsplit : ['\n'].intercalate (line :: next :: lines) =
          line ++ '\n' :: ['\n'].intercalate (next :: lines) := by
        simp [List.intercalate]
      rw [hsplit, bare_append (.line _), bare_line, ih]
      rfl

/-- Folding a text keeps what is visible of it, in its order: with the marks for line breaks taken
away again, the folded text has the visible characters of the text without its trim marks. The text
must not spell the word of these marks. -/
theorem visible_fold {text : String} (h : ¬"NEWLINE".toList <:+: visible text.toList) :
    replace lineBreakMark [] (visible (fold text).toList) =
      visible (replace ('~' :: closing) closing
        (replace (opening ++ ['~']) opening text.toList)) := by
  have hbefore : ¬"NEWLINE".toList <:+: visible (withoutBefore text.toList) :=
    absent_visible_replace (by decide) (by simp) (by decide) (by decide) h
  have hbare : ¬"NEWLINE".toList <:+: bare text.toList :=
    absent_visible_replace (by decide) (by simp) (by decide) (by decide) hbefore
  have hmarked := @marked_foldLines {} (by simp) (splitOn (· == '\n') text.toList)
  have hlines : (splitOn (· == '\n') text.toList).flatMap bare = bare text.toList := by
    rw [← bare_intercalate, intercalate_splitOn]
  have hempty : bare (Option.getD (Fold.held {}) []) = [] := rfl
  rw [hempty, hlines, List.nil_append] at hmarked
  rw [fold, String.toList_ofList, bare_eq_visible_trim, hmarked.replace_lineBreakMark hbare]
  rfl

/-- A mark for a line break behind a brace, an else tag that is held back, and trim marks. -/
theorem visible_fold_blocks :
    let text := "a \x7b\n\x7b\x7b#if b ~\x7d\x7d\n c\n\x7b\x7belse\x7d\x7d\n  \x7b\x7b~d\x7d\x7d"
    let shown := "a\x7b\x7b\x7b#ifb\x7d\x7dc\x7b\x7belse\x7d\x7d\x7b\x7bd\x7d\x7d"
    ¬"NEWLINE".toList <:+: visible text.toList ∧
      replace lineBreakMark [] (visible (fold text).toList) = shown.toList := by
  intro text shown
  have hword : ¬"NEWLINE".toList <:+: visible text.toList := by decide
  refine ⟨hword, (visible_fold hword).trans ?_⟩
  decide

end Stencil.Source
