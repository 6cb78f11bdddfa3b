import Stencil.Proofs.Escaping

/-!
# Trim marks

A trim mark takes away the white space on its side of the tag, and the mark goes with it. On a line
with one tag that has both marks nothing else happens to the text before it is read. But what the
white space kept apart stands side by side then: a brace at the end of the text before the tag makes
it a tag with three braces. When a brace starts the text after it, too, the tag writes its field as
it is, and both braces are lost; otherwise the tag is never closed.

## Main results

* `Source.fold_trimTag`: what is left of a line with a tag that has both marks.
* `Engine.trimmed_field`: what a template renders that is such a line.
-/

namespace Stencil

namespace Text

variable {word xs ys : List Char}

/-! ### Texts without a word -/

/-- A text without the word is not cut. -/
theorem breakAt_eq_none (h : ¬word <:+: xs) : breakAt word xs = none := by
  cases hcut : breakAt word xs with
  | none => rfl
  | some sides => exact absurd ⟨sides.1, sides.2, (breakAt_eq_some hcut).symm⟩ h

/-- A word whose first character is not in front is absent with what it is absent from. -/
theorem absent_append {w : Char} (hxs : w ∉ xs) (h : ¬w :: word <:+: ys) :
    ¬w :: word <:+: xs ++ ys := by
  induction xs with
  | nil => exact h
  | cons c xs ih =>
    rw [List.mem_cons, not_or] at hxs
    rw [List.cons_append, List.infix_cons_iff, not_or]
    exact ⟨fun hword => hxs.1 (List.cons_prefix_cons.mp hword).1, ih hxs.2⟩

/-- A word of two characters starts nowhere in a text that it is not part of, unless the text ends
in its first character. -/
theorem avoids_pair {v w : Char} (h : ¬[v, w] <:+: xs) (hlast : xs.getLast? ≠ some v)
    (ys : List Char) : Avoids [v, w] xs ys := by
  induction xs with
  | nil => trivial
  | cons c xs ih =>
    rw [List.infix_cons_iff, not_or] at h
    cases xs with
    | nil =>
      refine ⟨fun hword => hlast ?_, trivial⟩
      rw [(List.cons_prefix_cons.mp hword).1]
      rfl
    | cons d xs =>
      refine ⟨fun hword => h.1 ?_, ih h.2 (by simpa using hlast)⟩
      obtain ⟨rfl, hrest⟩ := List.cons_prefix_cons.mp hword
      obtain ⟨rfl, -⟩ := List.cons_prefix_cons.mp hrest
      simp

/-- A text that avoids a word avoids every longer word. -/
theorem Avoids.longer {more : List Char} (h : Avoids word xs ys) : Avoids (word ++ more) xs ys := by
  induction xs with
  | nil => trivial
  | cons c xs ih => exact ⟨fun hword => h.1 ((List.prefix_append word more).trans hword), ih h.2⟩

/-- A word that starts nowhere in a text does not start there when a character follows that the word
does not have. -/
theorem Avoids.before {c : Char} (h : Avoids word xs []) (hc : c ∉ word) (ys : List Char) :
    Avoids word xs (c :: ys) := by
  induction xs with
  | nil => trivial
  | cons d xs ih =>
    exact ⟨fun hword => h.1 (by simpa using prefix_of_notMem hc hword), ih h.2⟩

/-! ### White space at the ends -/

/-- What is left when the start is trimmed is an end of the text. -/
theorem trimStart_suffix_self (cs : List Char) : trimStart cs <:+ cs :=
  List.dropWhile_suffix _

/-- What is left when the end is trimmed is a beginning of the text. -/
theorem trimEnd_prefix_self (cs : List Char) : trimEnd cs <+: cs :=
  ⟨_, trimEnd_append cs⟩

/-- What starts and ends with other characters than white space stays between the trimmed texts
beside it. -/
theorem trim_around {tag : List Char} (hfirst : ∀ c ∈ tag.head?, isBlank c = false)
    (hlast : ∀ c ∈ tag.getLast?, isBlank c = false) (hne : tag ≠ []) :
    trim (xs ++ tag ++ ys) = trimStart xs ++ tag ++ trimEnd ys := by
  have hstart : trimStart (xs ++ tag ++ ys) = trimStart xs ++ tag ++ ys := by
    have hhead : (tag ++ ys).head? = tag.head? := by
      cases tag with
      | nil => exact absurd rfl hne
      | cons c tag => rfl
    rw [List.append_assoc, trimStart_append (by rwa [hhead]), List.append_assoc]
  rw [trim, hstart, append_trimEnd]
  rwa [List.getLast?_append_of_ne_nil _ hne]

/-- Trimming either end leaves nothing of the same texts. -/
theorem trimStart_eq_nil_iff {cs : List Char} : trimStart cs = [] ↔ trimEnd cs = [] := by
  simp [trimStart, trimEnd]

end Text

namespace Source

open Text

variable {name : String} {a b : List Char}

/-- The tag that writes a name escaped and takes away the white space on both sides. -/
def trimTag (name : String) : List Char :=
  opening ++ '~' :: name.toList ++ '~' :: closing

/-- A text that may stand beside a tag on one line: it has no line breaks, and neither two opening
nor two closing braces side by side. -/
structure Tagless (cs : List Char) : Prop where
  oneLine : '\n' ∉ cs
  noOpening : ¬opening <:+: cs
  noClosing : ¬closing <:+: cs

/-! ### Carrying out the marks -/

/-- White space at the start of a text is trimmed away. -/
theorem trimAfter_true (h : ¬closing <:+: b) : trimAfter true b = trimStart b := by
  induction b with
  | nil => rfl
  | cons c b ih =>
    have hb : ¬closing <:+: b := fun hclosing => h (hclosing.trans (List.suffix_cons c b).isInfix)
    have hstep : trimAfter true (c :: b) =
        if isBlank c then trimAfter true b else c :: trimAfter false b := by
      rw [trimAfter]
      · rfl
      · rintro rest rfl rfl
        exact hb (List.infix_append [] _ rest)
    have hkeep : trimAfter false b = b := by
      have havoids : Avoids ('~' :: closing) b [] :=
        avoids_of_absent fun hword => hb ((List.suffix_cons '~' closing).isInfix.trans hword)
      simpa [trimAfter] using trimAfter_append havoids
    rw [hstep, hkeep]
    by_cases hc : isBlank c = true
    · simpa [trimStart, hc] using ih hb
    · simp [trimStart, hc]

/-- The first mark of a tag takes away the white space before it. -/
theorem trimBefore_trimTag (h : PlainName name) (ha : ¬opening <:+: a)
    (hlast : a.getLast? ≠ some '\x7b') (hb : ¬opening <:+: b) :
    trimBefore [] (a ++ trimTag name ++ b) =
      trimEnd a ++ (opening ++ name.toList ++ ('~' :: closing ++ b)) := by
  have hrest : ¬opening <:+: name.toList ++ ('~' :: closing ++ b) :=
    absent_append (h.notMem (by decide)) (absent_append (by decide) hb)
  have htail : ∀ before, trimBefore before (name.toList ++ ('~' :: closing ++ b)) =
      before.reverse ++ (name.toList ++ ('~' :: closing ++ b)) := fun before => by
    simpa [trimBefore] using trimBefore_append (avoids_of_absent hrest).longer before
  have hmark : trimBefore a.reverse (opening ++ '~' :: (name.toList ++ ('~' :: closing ++ b))) =
      trimBefore ('\x7b' :: '\x7b' :: a.reverse.dropWhile isBlank)
        (name.toList ++ ('~' :: closing ++ b)) := rfl
  have hwhole : a ++ trimTag name ++ b =
      a ++ (opening ++ '~' :: (name.toList ++ ('~' :: closing ++ b))) := by
    simp [trimTag]
  rw [hwhole, trimBefore_append (avoids_pair ha hlast _).longer, List.append_nil, hmark, htail]
  simp [trimEnd, opening]

/-- The marks of a tag take away the white space on both sides of it, and nothing else. -/
theorem trim_trimTag (h : PlainName name) (ha : ¬opening <:+: a) (ha' : ¬closing <:+: a)
    (hlast : a.getLast? ≠ some '\x7b') (hb : ¬opening <:+: b) (hb' : ¬closing <:+: b) :
    trimAfter false (trimBefore [] (a ++ trimTag name ++ b)) =
      trimEnd a ++ valueTag name ++ trimStart b := by
  have hclean : Avoids ('~' :: closing) (trimEnd a)
      (opening ++ name.toList ++ ('~' :: closing ++ b)) := by
    refine (avoids_of_absent fun hword => ha' ?_).before (by decide) _
    exact ((List.suffix_cons '~' closing).isInfix.trans hword).trans (trimEnd_prefix_self a).isInfix
  have hname : '~' ∉ opening ++ name.toList := by
    simp [opening, h.notMem (c := '~') (by decide)]
  rw [trimBefore_trimTag h ha hlast hb, trimAfter_append hclean,
    trimAfter_append (avoids_of_notMem hname _)]
  show _ ++ (_ ++ (closing ++ trimAfter true b)) = _
  rw [trimAfter_true hb']
  simp [valueTag]

/-! ### Folding the line -/

/-- A line that does not stand in braces is no tag line. -/
theorem tagLine?_eq_none {line : List Char} (h : ¬opening <+: line ∨ ¬closing <:+ line) :
    tagLine? line = none := by
  unfold tagLine?
  split
  · next rest =>
    refine if_neg fun hsuffix => ?_
    exact h.elim (fun hstart => hstart ⟨rest, rfl⟩)
      fun hends => hends (List.isSuffixOf_iff_suffix.mp hsuffix)
  · rfl

/-- A line with the tag of a name and text beside it is a line of text. When there is none, the name
may be taken for the start of an else tag. -/
theorem lineKind_trimTag (h : PlainName name) (ha : ¬opening <:+: a)
    (hlast : a.getLast? ≠ some '\x7b') (hb : ¬closing <:+: b) (hfirst : b.head? ≠ some '\x7d') :
    lineKind (a ++ trimTag name ++ b) = .text ∨
      a = [] ∧ b = [] ∧ lineKind (trimTag name) = .branch := by
  have htext : tagLine? (a ++ trimTag name ++ b) = none →
      lineKind (a ++ trimTag name ++ b) = .text := fun htag => by
    rw [lineKind, htag]
  cases a with
  | cons c a =>
    refine .inl (htext (tagLine?_eq_none (.inl ?_)))
    rw [List.append_assoc]
    exact (avoids_pair ha hlast _).1
  | nil =>
    cases hrev : b.reverse with
    | cons d ds =>
      refine .inl (htext (tagLine?_eq_none (.inr ?_)))
      have hb' : ¬closing <:+: d :: ds := by
        rw [← hrev]
        exact fun hclosing => hb (List.reverse_infix.mp hclosing)
      have hfirst' : (d :: ds).getLast? ≠ some '\x7d' := by
        rwa [← hrev, List.getLast?_reverse]
      rw [← List.reverse_prefix, List.reverse_append, hrev]
      exact (avoids_pair hb' hfirst' _).1
    | nil =>
      obtain rfl := List.reverse_eq_nil_iff.mp hrev
      rw [List.nil_append, List.append_nil]
      have hshape : trimTag name = opening ++ '~' :: name.toList ++ '~' :: closing := rfl
      rcases lineKind_cases h (.inr hshape) ⟨_, (List.append_assoc _ ['~'] closing)⟩ with
        hkind | ⟨hkind, -⟩
      · exact .inl hkind
      · exact .inr ⟨rfl, rfl, hkind⟩

/-- An else tag that is the last line stands on a line of its own. -/
theorem foldLines_branch {line : List Char} (h : lineKind (trim line) = .branch) :
    foldLines {} [line] = '\n' :: trim line := by
  simp [foldLines, Fold.step, h, heldLine]

/-- Of a line with the tag of a name, both of whose marks are set, the trimmed texts beside the tag
are left, and the tag without its marks. -/
theorem fold_trimTag (h : PlainName name) (ha : Tagless a) (hlast : a.getLast? ≠ some '\x7b')
    (hb : Tagless b) (hfirst : b.head? ≠ some '\x7d') :
    fold (String.ofList (a ++ trimTag name ++ b)) =
      String.ofList (trimEnd a ++ valueTag name ++ trimStart b) := by
  have hlines : splitOn (· == '\n') (a ++ trimTag name ++ b) = [a ++ trimTag name ++ b] := by
    refine splitOn_of_forall fun c hc => beq_eq_false_iff_ne.mpr ?_
    rintro rfl
    have hname := h.notMem (c := '\n') (by decide)
    simp [trimTag, opening, closing, ha.oneLine, hb.oneLine, hname] at hc
  have htrim : trim (a ++ trimTag name ++ b) = trimStart a ++ trimTag name ++ trimEnd b := by
    have hends : trimTag name = opening ++ ('~' :: name.toList ++ ['~']) ++ closing := by
      simp [trimTag]
    rw [hends, List.append_assoc opening]
    refine trim_around (isBlank_head?_opening _) ?_ (by simp [opening])
    rw [← List.append_assoc]
    exact isBlank_getLast?_closing _
  have hlast' : (trimStart a).getLast? ≠ some '\x7b' := fun hend => hlast <| by
    obtain ⟨blanks, hblanks⟩ := trimStart_suffix_self a
    rw [← hblanks, List.getLast?_append, hend, Option.some_or]
  have hfirst' : (trimEnd b).head? ≠ some '\x7d' := fun hstart => hfirst <| by
    obtain ⟨blanks, hblanks⟩ := trimEnd_prefix_self b
    rw [← hblanks, List.head?_append, hstart, Option.some_or]
  have hopening : ¬opening <:+: trimStart a := fun hpart =>
    ha.noOpening (hpart.trans (trimStart_suffix_self a).isInfix)
  have hclosing : ¬closing <:+: trimEnd b := fun hpart =>
    hb.noClosing (hpart.trans (trimEnd_prefix_self b).isInfix)
  rcases lineKind_trimTag h hopening hlast' hclosing hfirst' with hkind | ⟨hstart, hend, hkind⟩
  · simp only [fold, String.toList_ofList, hlines, foldLines_line (htrim ▸ hkind),
      trim_trimTag h ha.noOpening ha.noClosing hlast hb.noOpening hb.noClosing]
  · have hwhole : trim (a ++ trimTag name ++ b) = trimTag name := by
      rw [htrim, hstart, hend, List.nil_append, List.append_nil]
    have hfold : foldLines {} [a ++ trimTag name ++ b] = ['\n'] ++ trimTag name ++ [] := by
      rw [foldLines_branch (by rwa [hwhole]), hwhole, List.append_nil]
      rfl
    have hblank : trimEnd ['\n'] = trimEnd a := (trimStart_eq_nil_iff.mp hstart).symm
    have hblank' : trimStart [] = trimStart b := (trimStart_eq_nil_iff.mpr hend).symm
    simp only [fold, String.toList_ofList, hlines, hfold]
    rw [trim_trimTag h (by decide) (by decide) (by decide) (by decide) (by decide), hblank, hblank']

/-! ### Reading what is left -/

/-- A tag with three braces that are not closed takes the rest of the text. -/
theorem cutTag_unclosed {rest : List Char} (h : ¬ '\x7d' :: closing <:+: rest) :
    cutTag ('\x7b' :: rest) = (.unclosedRawTag rest, []) := by
  simp only [cutTag, breakAt_eq_none h]

/-- No part of a text without tags is cut. -/
theorem Tagless.breakAt_opening (h : Tagless b) (hpart : a <:+: b) :
    breakAt opening a = none :=
  breakAt_eq_none fun hopening => h.noOpening (hopening.trans hpart)

/-- A malformed tag after a run is reported. -/
theorem ofPieces_malformed {piece : Piece} {cause : Malformed}
    (h : piece.tag? = some (.error cause)) (before : List Char) (pieces : List Piece) :
    ∃ span, Token.ofPieces 0 false (runOf before ++ piece :: pieces) = .error ⟨cause, span⟩ := by
  obtain ⟨next, hbefore⟩ := ofPieces_runOf 0 before (piece :: pieces)
  refine ⟨Span.ofBytes next (next + byteSize piece.text), ?_⟩
  rw [hbefore]
  simp only [Token.ofPieces, h]
  rfl

section Reading

variable {isOperation : String → Bool} {before after : List Char}

/-- A brace before the tag and one after it make it a tag with three braces. -/
theorem read_braced (h : PlainName name) (hoperation : isOperation name = false)
    (hbefore : breakAt opening before = none) (hlast : before.getLast? ≠ some '\x7b')
    (hafter : breakAt opening after = none) :
    read (String.ofList (before ++ ['\x7b'] ++ valueTag name ++ '\x7d' :: after)) {} isOperation =
      .ok (fieldBetween before false name after) := by
  have hsource : before ++ ['\x7b'] ++ valueTag name ++ '\x7d' :: after =
      before ++ opening ++ '\x7b' :: (name.toList ++ '\x7d' :: closing ++ after) := by
    simp [valueTag, opening, closing]
  refine readPieces_field h.toBareName hoperation (tag?_rawTag h.toBareName) ?_
  rw [String.toList_ofList, hsource, cut_tag hbefore hlast (cutTag_raw h.toBareName after) hafter]

/-- A brace before the tag and none after it make it a tag that is not closed. -/
theorem read_unclosed (h : PlainName name) (hbefore : breakAt opening before = none)
    (hlast : before.getLast? ≠ some '\x7b') (hafter : ¬closing <:+: after)
    (hfirst : after.head? ≠ some '\x7d') :
    ∃ error : SyntaxError, error.cause = .unclosedRawTag ∧
      read (String.ofList (before ++ ['\x7b'] ++ valueTag name ++ after)) {} isOperation =
        .error error := by
  have hsource : before ++ ['\x7b'] ++ valueTag name ++ after =
      before ++ opening ++ '\x7b' :: (name.toList ++ (closing ++ after)) := by
    simp [valueTag, opening]
  have hopen : ¬ '\x7d' :: closing <:+: name.toList ++ (closing ++ after) := by
    refine absent_append (h.notMem (by decide)) ?_
    have htwo : ¬closing <+: '\x7d' :: after := fun hword => hfirst <| by
      obtain ⟨more, hmore⟩ := (List.cons_prefix_cons.mp hword).2
      rw [← hmore]
      rfl
    simp only [closing, List.cons_append, List.nil_append, List.infix_cons_iff, not_or]
    refine ⟨fun hword => htwo (List.cons_prefix_cons.mp hword).2,
      fun hword => hafter (List.cons_prefix_cons.mp hword).2.isInfix,
      fun hword => hafter ((List.suffix_cons '\x7d' closing).isInfix.trans hword)⟩
  have hcut := cut_tag hbefore hlast (cutTag_unclosed hopen) rfl
  have hpiece : Piece.tag? (.unclosedRawTag (name.toList ++ (closing ++ after))) =
      some (.error .unclosedRawTag) := rfl
  obtain ⟨span, htokens⟩ := ofPieces_malformed hpiece before (runOf [])
  refine ⟨⟨⟨.unclosedRawTag, span⟩,
    String.ofList (before ++ ['\x7b'] ++ valueTag name ++ after)⟩, rfl, ?_⟩
  rw [read, Token.ofText, String.toList_ofList, hsource, hcut, htokens]
  rfl

end Reading

end Source

namespace Engine

open Source Text

/-- On one line a tag with both trim marks stands between two texts without any other tag. A
template that is this line renders the text before without the white space at its end, the field
escaped, and the text after without the white space at its start, unless the trimmed text before
ends in a brace. Then the template is malformed as long as the trimmed text after does not start
with a brace, too; and when it does, both braces are lost and the field is not escaped. -/
theorem trimmed_field (engine : Engine) (h : engine.Interpolates) {name : String}
    (hname : PlainName name) (hoperation : engine.hasOperation name = false) {a b : List Char}
    (ha : Tagless a) (hlast : a.getLast? ≠ some '\x7b') (hb : Tagless b)
    (hfirst : b.head? ≠ some '\x7d') :
    let source := String.ofList (a ++ trimTag name ++ b)
    ((trimEnd a).getLast? ≠ some '\x7b' → engine.Yields source fun data =>
      String.ofList (trimEnd a) ++ (data.read [name]).escapedOutput ++
        String.ofList (trimStart b)) ∧
    ∀ before, trimEnd a = before ++ ['\x7b'] →
      ((trimStart b).head? ≠ some '\x7d' → ∃ error : SyntaxError, error.cause = .unclosedRawTag ∧
        engine.read source {} = .error (.malformed error)) ∧
      ∀ after, trimStart b = '\x7d' :: after → engine.Yields source fun data =>
        String.ofList before ++ (data.read [name]).output ++ String.ofList after := by
  intro source
  have hfold : fold source = String.ofList (trimEnd a ++ valueTag name ++ trimStart b) :=
    fold_trimTag hname ha hlast hb hfirst
  have hread : ∀ {result}, Source.read (String.ofList (trimEnd a ++ valueTag name ++ trimStart b))
      {} engine.hasOperation = result → engine.read source {} = result.mapError .malformed := by
    rintro result rfl
    rw [read, readFolded, hfold]
  refine ⟨fun hend => ?_, fun before hbefore => ?_⟩
  · have hexpr := read_valueTag hname hoperation
      (ha.breakAt_opening (trimEnd_prefix_self a).isInfix) hend
      (hb.breakAt_opening (trimStart_suffix_self b).isInfix)
    exact (writes_field h (trimEnd a) true name (trimStart b)).yields (hread hexpr)
  · have hpart : before ++ ['\x7b'] <+: a := hbefore ▸ trimEnd_prefix_self a
    have hopening := ha.breakAt_opening ((List.prefix_append before _).trans hpart).isInfix
    have hend : before.getLast? ≠ some '\x7b' := fun hend => by
      obtain ⟨more, rfl⟩ := List.getLast?_eq_some_iff.mp hend
      refine ha.noOpening (List.IsInfix.trans ⟨more, [], ?_⟩ hpart.isInfix)
      simp [opening]
    rw [hbefore] at hread
    refine ⟨fun hstart => ?_, fun after hafter' => ?_⟩
    · obtain ⟨error, hcause, herror⟩ := read_unclosed hname hopening hend
        (fun hclosing => hb.noClosing (hclosing.trans (trimStart_suffix_self b).isInfix)) hstart
      exact ⟨error, hcause, hread herror⟩
    · rw [hafter'] at hread
      have hafter : after <:+ b :=
        (List.suffix_cons '\x7d' after).trans (hafter' ▸ trimStart_suffix_self b)
      have hexpr := read_braced hname hoperation hopening hend (hb.breakAt_opening hafter.isInfix)
      exact (writes_field h before false name after).yields (hread hexpr)

/-- White space on both sides of the tag is taken away, and what is between the texts is escaped. -/
theorem trimmed_field_blanks :
    let engine : Engine := {}
    let data : Value := .object (.outer 0) [("x", .string "<")]
    ∃ e T F', engine.read "a \x7b\x7b~x~\x7d\x7d b" {} = .ok e ∧
      engine.buildTemplate 0 .compiledSync e {} = some (.ok T, {}) ∧
      T.render engine 1 data {} = some (.ok "a&lt;b", F') := by
  intro engine data
  have ha : Tagless ['a', ' '] := ⟨by decide, by decide, by decide⟩
  have hb : Tagless [' ', 'b'] := ⟨by decide, by decide, by decide⟩
  obtain ⟨htrims, -⟩ := trimmed_field engine ⟨rfl, rfl⟩ plainName_x rfl
    ha (by decide) hb (by decide)
  obtain ⟨e, hread, hbuilds⟩ := htrims (by decide)
  obtain ⟨T, hbuild, hrenders⟩ := hbuilds .compiledSync 0 {}
  obtain ⟨F', hrender⟩ := hrenders 0 data {}
  exact ⟨e, T, F', hread, hbuild, hrender⟩

/-- Between two braces that white space keeps apart from the tag the marks do more than trim: the
braces are lost, and the field is not escaped. -/
theorem trimmed_field_fails :
    let engine : Engine := {}
    let v : Value := .string "<"
    (∀ strategy, ∃ e T F', engine.read "\x7b \x7b\x7b~x~\x7d\x7d \x7d" {} = .ok e ∧
      engine.buildTemplate 0 strategy e {} = some (.ok T, {}) ∧
      T.render engine 1 (.object (.outer 0) [("x", v)]) {} = some (.ok "<", F')) ∧
    String.ofList (trimEnd ['\x7b', ' ']) ++ v.escapedOutput ++
      String.ofList (trimStart [' ', '\x7d']) ≠ "<" := by
  refine ⟨fun strategy => ?_, by decide⟩
  obtain ⟨_ | _, _ | _⟩ := strategy <;> exact ⟨_, _, _, rfl, rfl, rfl⟩

end Engine

end Stencil
