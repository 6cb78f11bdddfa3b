import Mathlib.Data.List.TakeWhile
import Stencil.Proofs.Grammar
import Stencil.Proofs.Cutting

/-!
# Names in tags

A tag that holds a bare word is read as a path, and a template that is nothing but such a tag is the
expression of that path. Nothing in the word is taken for a mark of the tag, a separator of words or
the end of the tag, and no folding of lines or trimming changes such a text.

## Main results

* `BareName.readAll?_eq`: the words of a tag that holds a name alone.
* `Source.trimBefore_append`, `Source.trimAfter_append`: what trimming does not touch.
* `Source.fold_of_line`: a single line of text without trim marks is folded to itself.
* `Source.readFolded_rawTag`: the expression of a name that is written as it is.
-/

namespace Stencil

open Text Source

/-! ### Texts without a character -/

namespace Text

/-- A text without separators is one piece. -/
theorem splitOn_of_forall {sep : Char → Bool} {cs : List Char} (h : ∀ c ∈ cs, sep c = false) :
    splitOn sep cs = [cs] := by
  induction cs with
  | nil => rfl
  | cons c cs ih =>
    obtain ⟨hc, hcs⟩ := List.forall_mem_cons.mp h
    simp [splitOn, hc, ih hcs]

/-- White space is trimmed away at the start as far as other characters begin. -/
theorem trimStart_append {xs ys : List Char} (h : ∀ c ∈ ys.head?, isBlank c = false) :
    trimStart (xs ++ ys) = trimStart xs ++ ys := by
  have hys : trimStart ys = ys := by
    cases ys with
    | nil => rfl
    | cons c ys => simp [trimStart, h c rfl]
  induction xs with
  | nil => exact hys
  | cons c xs ih =>
    by_cases hc : isBlank c = true
    · simpa [trimStart, hc] using ih
    · simp [trimStart, hc]

/-- Trimming the end is trimming the start of the reversed text. -/
theorem trimEnd_eq (cs : List Char) : trimEnd cs = (trimStart cs.reverse).reverse := rfl

/-- When a text does not end in white space, only what follows it is trimmed at the end. -/
theorem append_trimEnd {xs ys : List Char} (h : ∀ c ∈ xs.getLast?, isBlank c = false) :
    trimEnd (xs ++ ys) = xs ++ trimEnd ys := by
  rw [trimEnd_eq, trimEnd_eq, List.reverse_append, trimStart_append (by simpa using h),
    List.reverse_append, List.reverse_reverse]

/-- A text with no white space at its ends is not trimmed. -/
theorem trim_of_ends {cs : List Char} (hfirst : ∀ c ∈ cs.head?, isBlank c = false)
    (hlast : ∀ c ∈ cs.getLast?, isBlank c = false) : trim cs = cs := by
  have hstart : trimStart cs = cs := @trimStart_append [] cs hfirst
  have hend : trimEnd (cs ++ []) = cs ++ [] := append_trimEnd hlast
  rw [List.append_nil] at hend
  rw [trim, hstart, hend]

/-- A text is cut at a word whose first character it does not have. -/
theorem breakAt_of_notMem {w : Char} {word before : List Char} (h : w ∉ before)
    (rest : List Char) :
    breakAt (w :: word) (before ++ w :: word ++ rest) = some (before, rest) := by
  induction before with
  | nil =>
    have hafter : after? (w :: word) (w :: word ++ rest) = some rest := after?_eq_some.mpr rfl
    rw [List.nil_append, List.cons_append, breakAt, ← List.cons_append, hafter]
  | cons c before ih =>
    rw [List.mem_cons, not_or] at h
    have hafter : after? (w :: word) (c :: (before ++ w :: word ++ rest)) = none := by
      simp [after?, h.1]
    rw [List.cons_append, List.cons_append, breakAt, hafter]
    simp only [ih h.2, Option.map_some]

/-- A word that does not have a character goes no further than this character. -/
theorem prefix_of_notMem {word xs ys : List Char} {c : Char} (hc : c ∉ word)
    (h : word <+: xs ++ c :: ys) : word <+: xs := by
  induction xs generalizing word with
  | nil =>
    cases word with
    | nil => exact List.nil_prefix
    | cons w word =>
      obtain rfl := (List.cons_prefix_cons.mp h).1
      exact absurd List.mem_cons_self hc
  | cons x xs ih =>
    cases word with
    | nil => exact List.nil_prefix
    | cons w word =>
      obtain ⟨rfl, hrest⟩ := List.cons_prefix_cons.mp h
      exact List.cons_prefix_cons.mpr
        ⟨rfl, ih (fun hmem => hc (List.mem_cons_of_mem w hmem)) hrest⟩

/-- The word starts nowhere in the first text when the second one follows it. -/
def Avoids (word : List Char) : List Char → List Char → Prop
  | [], _ => True
  | c :: xs, ys => ¬word <+: c :: xs ++ ys ∧ Avoids word xs ys

/-- A text avoids a word whose first character it does not have. -/
theorem avoids_of_notMem {w : Char} {word xs : List Char} (h : w ∉ xs) (ys : List Char) :
    Avoids (w :: word) xs ys := by
  induction xs with
  | nil => trivial
  | cons c xs ih =>
    rw [List.mem_cons, not_or] at h
    exact ⟨fun hword => h.1 (List.cons_prefix_cons.mp hword).1, ih h.2⟩

/-- A text that does not have a word avoids it. -/
theorem avoids_of_absent {word xs : List Char} (h : ¬word <:+: xs) : Avoids word xs [] := by
  induction xs with
  | nil => trivial
  | cons c xs ih =>
    rw [List.infix_cons_iff, not_or] at h
    exact ⟨by simpa using h.1, ih h.2⟩

/-- A gap between words is white space. -/
theorem isBlank_of_isGap {c : Char} (h : isGap c = true) : isBlank c = true := by
  simp only [isGap, Bool.or_eq_true, beq_iff_eq] at h
  rcases h with ((rfl | rfl) | rfl) | rfl <;> decide

end Text

/-! ### Words -/

/-- Contents without marks at their ends are trimmed only. -/
theorem Source.withoutMarks_of_ends {contents : List Char} (hfirst : contents.head? ≠ some '~')
    (hlast : contents.getLast? ≠ some '~') : withoutMarks contents = trim contents := by
  unfold withoutMarks
  split
  · exact absurd rfl hfirst
  · simp only [if_neg hlast]

/-- A name that a tag may hold on its own and that leads to a field of the context: a single word
that spells no literal, no read of the place in a loop, no line break and not the context itself. -/
structure BareName (name : String) : Prop where
  ne_empty : name ≠ ""
  word : name.toList.all Term.isWordChar = true
  path : Term.ofWord name.toList = .path name
  single : name.toList.any Path.isSeparator = false
  ne_at : name.toList.head? ≠ some '@'
  ne_this : name ≠ "this"
  ne_lineBreak : name ≠ "NEWLINE"

namespace BareName

variable {name : String}

/-- The characters of a bare name stand in words. -/
theorem isWordChar_of_mem (h : BareName name) : ∀ c ∈ name.toList, Term.isWordChar c = true :=
  List.all_eq_true.mp h.word

/-- A bare name has no separators. -/
theorem isSeparator_of_mem (h : BareName name) : ∀ c ∈ name.toList, Path.isSeparator c = false :=
  fun c hc => Bool.eq_false_iff.mpr (List.any_eq_false.mp h.single c hc)

/-- A bare name has a first character. -/
theorem exists_cons (h : BareName name) : ∃ c cs, name.toList = c :: cs :=
  List.exists_cons_of_ne_nil fun hnil => h.ne_empty (String.toList_eq_nil_iff.mp hnil)

/-- A bare name has no white space. -/
theorem isBlank_eq (h : BareName name) {c : Char} (hc : c ∈ name.toList) : isBlank c = false := by
  have hword := h.isWordChar_of_mem _ hc
  simp only [Term.isWordChar, Bool.and_eq_true, Bool.not_eq_true'] at hword
  exact hword.1

/-- What may not stand in a word is not in the name. -/
theorem notMem (h : BareName name) {c : Char} (hc : Term.isWordChar c = false) :
    c ∉ name.toList := fun hmem => by
  rw [h.isWordChar_of_mem _ hmem] at hc
  cases hc

/-- No separator of segments is in the name. -/
theorem notMem_of_isSeparator (h : BareName name) {c : Char} (hc : Path.isSeparator c = true) :
    c ∉ name.toList := fun hmem => by
  rw [h.isSeparator_of_mem _ hmem] at hc
  cases hc

/-- A bare name has nothing to trim. -/
theorem trim_eq (h : BareName name) : trim name.toList = name.toList :=
  trim_of_ends (fun _ hc => h.isBlank_eq (List.mem_of_mem_head? hc))
    (fun _ hc => h.isBlank_eq (List.mem_of_mem_getLast? hc))

/-- The name has no trim marks. -/
theorem withoutMarks_eq (h : BareName name) : withoutMarks name.toList = name.toList := by
  have hmark : '~' ∉ name.toList := h.notMem (by decide)
  rw [withoutMarks_of_ends (fun hfirst => hmark (List.mem_of_head? hfirst))
    (fun hlast => hmark (List.mem_of_getLast? hlast)), h.trim_eq]

/-- The name is one word. -/
theorem word?_eq (h : BareName name) : Param.word? name.toList = some (name.toList, []) := by
  obtain ⟨c, cs, hcs⟩ := h.exists_cons
  unfold Param.word?
  rw [List.takeWhile_eq_self_iff.mpr h.isWordChar_of_mem,
    List.dropWhile_eq_nil_iff.mpr h.isWordChar_of_mem, hcs]

/-- No gap comes before a bare name. -/
theorem skipGap_eq (h : BareName name) : Param.skipGap name.toList = name.toList := by
  obtain ⟨c, cs, hcs⟩ := h.exists_cons
  have hgap : isGap c ≠ true := fun hgap => by
    have := h.isBlank_eq (hcs ▸ List.mem_cons_self)
    rw [isBlank_of_isGap hgap] at this
    cases this
  rw [Param.skipGap, hcs, List.dropWhile_cons_of_neg hgap]

/-- The name does not declare the parameters of a block, since it has no bar. -/
theorem block?_eq (h : BareName name) (budget : Nat) :
    Param.block? budget name.toList = none := by
  unfold Param.block?
  split
  · next rest hname =>
    split
    · next more hgap =>
      have hrest : rest.dropWhile isGap = '|' :: more := hgap
      have hbar : '|' ∈ rest := (List.dropWhile_sublist isGap).mem (hrest ▸ List.mem_cons_self)
      exact absurd (hname ▸ List.mem_cons_of_mem _ (List.mem_cons_of_mem _ hbar))
        (h.notMem (by decide))
    · rfl
  · rfl

/-- The name is a term. -/
theorem term?_eq (h : BareName name) (budget : Nat) :
    Param.term? (budget + 1) name.toList = some (.path name, []) := by
  have hno : ∀ {c : Char} {rest : List Char}, name.toList = c :: rest →
      Term.isWordChar c = true := fun hcs => h.isWordChar_of_mem _ (hcs ▸ List.mem_cons_self)
  unfold Param.term?
  split
  · next hcs => cases hno hcs
  · next hcs => cases hno hcs
  · next hcs => cases hno hcs
  · simp only [h.word?_eq, Option.map_some, h.path]

/-- The words of a tag that holds the name alone. -/
theorem readAll?_eq (h : BareName name) :
    Param.readAll? name.toList = some [.plain (.path name)] := by
  have hname : Param.name? name.toList = none := by
    unfold Param.name?
    rw [h.word?_eq]
  have hparams : ∀ budget, Param.params? (budget + 2) name.toList =
      some ([.plain (.path name)], []) := by
    intro budget
    obtain ⟨c, cs, hcs⟩ := h.exists_cons
    have hclose : c ≠ ')' := by
      rintro rfl
      cases h.isWordChar_of_mem _ (hcs ▸ List.mem_cons_self)
    unfold Param.params?
    rw [h.skipGap_eq]
    split
    · next hnil => cases hcs.symm.trans hnil
    · next hparen => exact absurd (List.cons.inj (hcs.symm.trans hparen)).1 hclose
    · simp only [h.block?_eq, hname, h.term?_eq]
      rfl
  unfold Param.readAll?
  rw [hparams]

end BareName

/-! ### Lines without marks -/

namespace Source

/-- The trimming before marks passes over a text in which no mark stands. -/
theorem trimBefore_append {xs ys : List Char} (h : Avoids (opening ++ ['~']) xs ys)
    (before : List Char) :
    trimBefore before (xs ++ ys) = trimBefore (xs.reverse ++ before) ys := by
  induction xs generalizing before with
  | nil => rfl
  | cons c xs ih =>
    obtain ⟨hc, hxs⟩ := h
    have hskip : trimBefore before (c :: (xs ++ ys)) = trimBefore (c :: before) (xs ++ ys) := by
      rw [trimBefore]
      rintro rest rfl hrest
      exact hc ⟨rest, congrArg (List.cons '\x7b') hrest.symm⟩
    rw [List.cons_append, hskip, ih hxs]
    simp

/-- The trimming after marks passes over a text in which no mark stands. -/
theorem trimAfter_append {xs ys : List Char} (h : Avoids ('~' :: closing) xs ys) :
    trimAfter false (xs ++ ys) = xs ++ trimAfter false ys := by
  induction xs with
  | nil => rfl
  | cons c xs ih =>
    obtain ⟨hc, hxs⟩ := h
    have hkeep : trimAfter false (c :: (xs ++ ys)) = c :: trimAfter false (xs ++ ys) := by
      rw [trimAfter]
      · rfl
      · rintro rest rfl hrest
        exact hc ⟨rest, congrArg (List.cons '~') hrest.symm⟩
    rw [List.cons_append, hkeep, ih hxs, List.cons_append]

/-- A line that starts with a raw tag is a line of text. -/
theorem lineKind_raw (cs : List Char) : lineKind (opening ++ '\x7b' :: cs) = .text := by
  have htag : tagLine? (opening ++ '\x7b' :: cs) = some ('\x7b' :: cs) ∨
      tagLine? (opening ++ '\x7b' :: cs) = none := by
    by_cases hends : ['\x7d', '\x7d'].isSuffixOf (opening ++ '\x7b' :: cs)
    · exact .inl (if_pos hends)
    · exact .inr (if_neg hends)
  unfold lineKind
  rcases htag with htag | htag
  · rw [htag]
    rfl
  · rw [htag]

/-- A single line of text is folded to itself. -/
theorem foldLines_line {line : List Char} (h : lineKind (Text.trim line) = .text) :
    foldLines {} [line] = line := by
  simp [foldLines, Fold.step, h, Fold.join, heldLine]

/-- A tag starts and ends with braces, and so with no white space. -/
theorem isBlank_head?_opening (cs : List Char) :
    ∀ c ∈ (opening ++ cs).head?, isBlank c = false := by
  rintro c ⟨⟩
  decide

/-- What ends with closing braces does not end in white space. -/
theorem isBlank_getLast?_closing (cs : List Char) :
    ∀ c ∈ (cs ++ closing).getLast?, isBlank c = false := by
  rw [List.getLast?_append]
  rintro c ⟨⟩
  decide

/-- A single line of text without trim marks is folded to itself. -/
theorem fold_of_line {text : String} (hbreak : '\n' ∉ text.toList) (hmark : '~' ∉ text.toList)
    (hkind : lineKind (Text.trim text.toList) = .text) : fold text = text := by
  have hlines : splitOn (· == '\n') text.toList = [text.toList] :=
    splitOn_of_forall fun c hc => by
      rw [beq_eq_false_iff_ne]
      rintro rfl
      exact hbreak hc
  have hbefore : trimBefore [] text.toList = text.toList := by
    have havoids : Avoids (opening ++ ['~']) text.toList [] :=
      avoids_of_absent fun hword => hmark (hword.subset (by simp))
    simpa [trimBefore] using trimBefore_append havoids []
  have hafter : trimAfter false text.toList = text.toList := by
    simpa [trimAfter] using trimAfter_append (avoids_of_notMem hmark [])
  simp only [fold, hlines, foldLines_line hkind, hbefore, hafter, String.ofList_toList]

/-! ### A name that is written -/

/-- The tag that writes a name as it is. -/
def rawTag (name : String) : String :=
  "\x7b\x7b\x7b" ++ name ++ "\x7d\x7d\x7d"

/-- The characters of a raw tag. -/
theorem toList_rawTag (name : String) : (rawTag name).toList =
    opening ++ '\x7b' :: (name.toList ++ '\x7d' :: closing) := by
  simp [rawTag, opening, closing]

variable {name : String}

/-- The tag is folded to itself. -/
theorem fold_rawTag (h : BareName name) : fold (rawTag name) = rawTag name := by
  have hnotMem : ∀ c, Term.isWordChar c = false → c ≠ '\x7b' → c ≠ '\x7d' →
      c ∉ (rawTag name).toList := by
    intro c hc hopen hclose hmem
    rw [toList_rawTag] at hmem
    simp only [opening, closing, List.mem_append, List.mem_cons, List.not_mem_nil, or_false] at hmem
    have hname := h.notMem hc
    simp [hopen, hclose, hname] at hmem
  have hends : Text.trim (rawTag name).toList = (rawTag name).toList := by
    refine trim_of_ends ?_ ?_
    · rw [toList_rawTag]
      exact isBlank_head?_opening _
    · have hraw : (rawTag name).toList =
        opening ++ '\x7b' :: name.toList ++ ['\x7d'] ++ closing := by
        simp [toList_rawTag]
      rw [hraw]
      exact isBlank_getLast?_closing _
  refine fold_of_line (hnotMem _ (by decide) (by decide) (by decide))
    (hnotMem _ (by decide) (by decide) (by decide)) ?_
  rw [hends, toList_rawTag]
  exact lineKind_raw _

/-- Three closing braces after the name close its tag. -/
theorem cutTag_raw (h : BareName name) (after : List Char) :
    cutTag ('\x7b' :: (name.toList ++ '\x7d' :: closing ++ after)) =
      (.rawTag name.toList, after) := by
  have hbrace : '\x7d' ∉ name.toList := h.notMem (by decide)
  simp only [cutTag, breakAt_of_notMem hbrace after]

/-- A tag that writes what its words stand for as it is. -/
theorem tag?_rawWords {words : String} {params : List Param}
    (hmarks : withoutMarks words.toList = words.toList)
    (hwords : Param.readAll? words.toList = some params) :
    Piece.tag? (.rawTag words.toList) = some (.ok (.value false params)) := by
  simp only [Piece.tag?, paramsOf, hmarks, hwords]
  rfl

/-- A raw tag of a name is its value as it is. -/
theorem tag?_rawTag (h : BareName name) :
    Piece.tag? (.rawTag name.toList) = some (.ok (.value false [.plain (.path name)])) :=
  tag?_rawWords h.withoutMarks_eq h.readAll?_eq

/-- The token of such a tag. -/
theorem ofText_rawWords {words : String} {params : List Param}
    (hcut : cut (rawTag words).toList = [.rawTag words.toList])
    (hmarks : withoutMarks words.toList = words.toList)
    (hwords : Param.readAll? words.toList = some params) :
    ∃ span, Token.ofText (rawTag words) = .ok [.tag (.value false params) span] := by
  rw [Token.ofText, hcut]
  simp only [Token.ofPieces, tag?_rawWords hmarks hwords]
  exact ⟨_, rfl⟩

/-- The text of a raw tag has one token. -/
theorem ofText_rawTag (h : BareName name) : ∃ span, Token.ofText (rawTag name) =
    .ok [.tag (.value false [.plain (.path name)]) span] := by
  have hbreak : Text.breakAt opening (rawTag name).toList =
      some ([], '\x7b' :: (name.toList ++ '\x7d' :: closing ++ [])) := by
    rw [toList_rawTag, List.append_nil]
    rfl
  have hcut : cut (rawTag name).toList = [.rawTag name.toList] := by
    rw [cut_eq_cons hbreak (cutTag_raw h [])]
    rfl
  exact ofText_rawWords hcut h.withoutMarks_eq h.readAll?_eq

/-- The node of the tag of a path. -/
theorem ofTokens_value {path : String} (hbreak : path ≠ "NEWLINE") (span : Span) :
    Node.ofTokens [.tag (.value false [.plain (.path path)]) span] =
      .ok [.value false (.path path)] := by
  have hnode : Node.ofValue false [.plain (.path path)] = .ok (.value false (.path path)) := by
    rw [Node.ofValue]
    rintro ⟨⟩
    exact hbreak rfl
  simp only [Node.ofTokens, Nesting.take, List.foldlM_cons, List.foldlM_nil, Nesting.push,
    hnode, Nesting.addNode]
  rfl

/-- The expression of a template that writes a path as it is. -/
theorem read_rawPath {path : String} {span : Span}
    (htoken : Token.ofText (rawTag path) = .ok [.tag (.value false [.plain (.path path)]) span])
    (hbreak : path ≠ "NEWLINE") (options : Options) (isOperation : String → Bool) :
    read (rawTag path) options isOperation =
      .ok (Naming.pathExpr { options, isOperation } path) := by
  refine read_eq_ok.mpr ⟨_, _, htoken, ofTokens_value hbreak span, ?_⟩
  simp only [nodeExprs, nodeExpr, termExpr, written, Bool.false_and, Bool.false_eq_true, if_false,
    concat_singleton]

/-- The expression of a name that is written as it is. -/
theorem readFolded_rawTag (h : BareName name) (options : Options) (isOperation : String → Bool) :
    readFolded (rawTag name) options isOperation =
      .ok (Naming.pathExpr { options, isOperation } name) := by
  obtain ⟨span, htokens⟩ := ofText_rawTag h
  rw [readFolded, fold_rawTag h]
  exact read_rawPath htokens h.ne_lineBreak options isOperation

/-! ### The expression of a name -/

/-- The name is a path of one segment. -/
theorem ofText_bareName (h : BareName name) : Path.ofText name = ⟨[name]⟩ := by
  simp [Path.ofText, Text.split, splitOn_of_forall h.isSeparator_of_mem, h.ne_this, h.ne_empty]

/-- A bare name is its own first segment. -/
theorem firstSegment_bareName (h : BareName name) : firstSegment name = name := by
  have htake : name.toList.takeWhile (fun c => !Path.isSeparator c) = name.toList :=
    List.takeWhile_eq_self_iff.mpr fun c hc => by simp [h.isSeparator_of_mem _ hc]
  rw [firstSegment, htake, String.ofList_toList]

/-- No separator follows `this` in a name. -/
theorem afterThis?_bareName (h : BareName name) : afterThis? name = none := by
  unfold afterThis?
  split
  · next c rest hname =>
    rw [if_neg]
    rw [h.isSeparator_of_mem _ (by simp [hname])]
    exact Bool.false_ne_true
  · rfl

/-- A name does not start with a word that no name may start with. -/
theorem startsWith_bareName (word : String) {c : Char} {cs : List Char}
    (hword : word.toList = c :: cs) (hfirst : name.toList.head? ≠ some c) :
    startsWith word name = false := by
  unfold startsWith
  rw [hword]
  cases hname : name.toList with
  | nil => rfl
  | cons d ds =>
    have hne : c ≠ d := by
      rintro rfl
      exact hfirst (by rw [hname]; rfl)
    simp [List.isPrefixOf, hne]

/-- The read of a name, of the context alone or of all scopes. -/
def nameExpr (recurse : Bool) (name : String) : Expr :=
  if recurse then lookupExpr name else .path ⟨[name]⟩

/-- A name that is an operation, too, calls it when there is no value for it. -/
theorem pathExpr_operation (h : BareName name) {naming : Naming} (hparams : name ∉ naming.params)
    (hoperation : naming.isOperation name = true) :
    naming.pathExpr name =
      .call "default" [nameExpr naming.options.recurse name, .call name []] := by
  have hpoint : name.toList.head? ≠ some '.' := fun hhead =>
    h.notMem_of_isSeparator rfl (List.mem_of_head? hhead)
  have hthis : ¬(name = "this" ∨ name = ".") := by
    rintro (rfl | rfl)
    · exact h.ne_this rfl
    · exact hpoint rfl
  unfold Naming.pathExpr
  rw [if_neg hthis, startsWith_bareName "@" rfl h.ne_at, afterThis?_bareName h]
  simp [startsWith_bareName "../" rfl hpoint, startsWith_bareName "./" rfl hpoint,
    firstSegment_bareName h, hparams, hoperation, ofText_bareName h, nameExpr]

end Source

end Stencil
