import Stencil.Proofs.Names
import Mathlib.Data.List.Induction

/-!
# What tokens leave of a text

A template text is tiled by its tags and by the runs of text between them: each tag goes from two
opening braces to two closing ones, no run holds two opening braces, and no two runs meet. The
tokens are what these slices leave, one after the other. Comments leave nothing, and neither does
one line break at the start of a run, when nothing but comments stands between the run and a tag of
a block. What a tag is can be told from its slice alone.

Every round of the scan takes the text up to the end of a tag, so that there are no more rounds than
characters. The places of tags are kept in words of thirty-two bits; they are the places in the text
as long as it is shorter than `2 ^ 32` bytes.

## Main results

* `Tag.spans_of_cutTag`: what a tag is, is told by its slice.
* `eatsAfter_iff`: which line breaks belong to tags.
* `tiling_of_ofPieces`: the pieces of a text tile it.
* `Token.tiled`: the tokens of a text are what its slices leave.
-/

namespace Stencil

namespace Text

variable {word cs before rest : List Char}

/-- Where no cut is found, the word does not stand. -/
theorem absent_of_breakAt_eq_none (h : breakAt word cs = none) : ¬word <:+: cs := by
  induction cs with
  | nil =>
    rw [breakAt, Option.map_eq_none_iff] at h
    intro hword
    obtain rfl := List.infix_nil.mp hword
    cases h
  | cons c cs ih =>
    rw [breakAt] at h
    cases hafter : after? word (c :: cs) with
    | some r => simp [hafter] at h
    | none =>
      rw [hafter] at h
      rw [List.infix_cons_iff, not_or]
      refine ⟨?_, ih (Option.map_eq_none_iff.mp h)⟩
      rintro ⟨r, hr⟩
      rw [after?_eq_some.mpr hr.symm] at hafter
      cases hafter

/-- The word does not stand before the place of the cut. -/
theorem absent_of_breakAt (hne : word ≠ []) (h : breakAt word cs = some (before, rest)) :
    ¬word <:+: before := by
  induction cs generalizing before with
  | nil =>
    have hword := breakAt_eq_some h
    obtain ⟨-, rfl, -⟩ : before = [] ∧ word = [] ∧ rest = [] := by simpa using hword.symm
    exact absurd rfl hne
  | cons c cs ih =>
    rw [breakAt] at h
    cases hafter : after? word (c :: cs) with
    | some r =>
      rw [hafter] at h
      obtain ⟨rfl, rfl⟩ : [] = before ∧ r = rest := by simpa using h
      exact fun hword => hne (List.infix_nil.mp hword)
    | none =>
      rw [hafter] at h
      obtain ⟨⟨b, r⟩, hb, h⟩ := Option.map_eq_some_iff.mp h
      obtain ⟨rfl, rfl⟩ := Prod.mk.inj h
      rw [List.infix_cons_iff, not_or]
      refine ⟨?_, ih hb⟩
      intro hword
      have hcs : c :: b <+: c :: cs := by
        rw [breakAt_eq_some hb, List.append_assoc]
        exact List.prefix_append (c :: b) _
      obtain ⟨r', hr'⟩ := hword.trans hcs
      rw [after?_eq_some.mpr hr'.symm] at hafter
      cases hafter

end Text

namespace Source

/-! ### Tags and their slices -/

/-- The tag that a slice of a text spells, from two opening braces to two closing ones. A third
brace at each end asks for a value as it is. -/
def Tag.ofSlice (slice : List Char) : Except Malformed Tag :=
  match (slice.drop 2).dropLast.dropLast with
  | '\x7b' :: raw => (paramsOf (withoutMarks raw.dropLast)).map (.value false)
  | contents => ofContents contents

/-- Taking two characters away leaves what is before closing braces. -/
theorem dropLast_dropLast_closing (cs : List Char) : (cs ++ closing).dropLast.dropLast = cs := by
  simp [closing, List.dropLast_append_of_ne_nil]

/-- What starts with an exclamation mark still does so without the marks. -/
theorem exists_withoutMarks_bang {contents rest : List Char}
    (h : contents = '!' :: rest ∨ contents = '~' :: '!' :: rest) :
    ∃ rest', withoutMarks contents = '!' :: rest' := by
  have hfirst : withoutMarks contents = Text.trim
      (if ('!' :: rest).getLast? = some '~' then ('!' :: rest).dropLast else '!' :: rest) := by
    rcases h with rfl | rfl <;> rfl
  have htrim : ∀ cs, Text.trim ('!' :: cs) = '!' :: Text.trimEnd cs := fun cs => by
    have hstart : Text.trimStart ('!' :: cs) = ['!'] ++ cs := rfl
    rw [Text.trim, hstart, Text.append_trimEnd (by rintro c ⟨⟩; decide)]
    rfl
  rw [hfirst]
  split
  · next hlast =>
    cases rest with
    | nil => cases hlast
    | cons c rest => exact ⟨_, htrim _⟩
  · exact ⟨_, htrim _⟩

/-- A tag that starts with an exclamation mark is a comment. -/
theorem Tag.ofContents_bang {contents rest : List Char}
    (h : contents = '!' :: rest ∨ contents = '~' :: '!' :: rest) :
    ofContents contents = .ok .comment := by
  obtain ⟨rest', hmarks⟩ := exists_withoutMarks_bang h
  simp only [ofContents, hmarks]

/-- Before its closing dashes a comment has the exclamation mark that it starts with. -/
theorem exists_bang_of_startsComment {cs : List Char} (h : startsComment cs = true)
    (contents dashes rest : List Char) (hcs : cs = contents ++ '-' :: dashes ++ rest) :
    ∃ more, contents = '!' :: more ∨ contents = '~' :: '!' :: more := by
  unfold startsComment at h
  split at h
  · next rest' =>
    obtain ⟨tail, htail⟩ := List.isPrefixOf_iff_prefix.mp h
    rcases contents with _ | ⟨c, _ | ⟨d, contents⟩⟩
    · cases (List.cons.inj hcs).1
    · obtain ⟨rfl, hrest⟩ := List.cons.inj hcs
      rw [hrest] at htail
      cases (List.cons.inj htail).1
    · obtain ⟨rfl, hrest⟩ := List.cons.inj hcs
      rw [hrest] at htail
      obtain ⟨rfl, -⟩ := List.cons.inj htail
      exact ⟨_, .inr rfl⟩
  · obtain ⟨tail, htail⟩ := List.isPrefixOf_iff_prefix.mp h
    rcases contents with _ | ⟨c, contents⟩
    · rw [hcs] at htail
      cases (List.cons.inj htail).1
    · rw [hcs] at htail
      obtain ⟨rfl, -⟩ := List.cons.inj htail
      exact ⟨_, .inl rfl⟩

/-- A slice of a text that is a tag: it starts and ends with its braces, and spells the tag. -/
structure Tag.Spans (tag : Tag) (slice : List Char) : Prop where
  starts : Source.opening <+: slice
  ends : Source.closing <:+ slice
  spells : Tag.ofSlice slice = .ok tag

/-- A tag spans its contents in braces. -/
theorem Tag.spans_of_contents {tag : Tag} {contents : List Char}
    (hfirst : contents.head? ≠ some '\x7b') (h : ofContents contents = .ok tag) :
    tag.Spans (Source.opening ++ contents ++ Source.closing) where
  starts := ⟨contents ++ Source.closing, by simp⟩
  ends := ⟨Source.opening ++ contents, rfl⟩
  spells := by
    have hinner : ((Source.opening ++ contents ++ Source.closing).drop 2).dropLast.dropLast =
        contents := dropLast_dropLast_closing contents
    rw [Tag.ofSlice, hinner]
    split
    · exact absurd rfl hfirst
    · exact h

/-- A raw tag spans its contents in its braces. -/
theorem Tag.spans_of_rawContents {tag : Tag} {contents : List Char}
    (h : (paramsOf (withoutMarks contents)).map (.value false) = .ok tag) :
    tag.Spans (Piece.rawTag contents).text where
  starts := ⟨'\x7b' :: contents ++ '\x7d' :: Source.closing, by simp [Piece.text]⟩
  ends := ⟨Source.opening ++ '\x7b' :: contents ++ ['\x7d'], by simp [Piece.text]⟩
  spells := by
    have hinner : ((Piece.rawTag contents).text.drop 2).dropLast.dropLast =
        '\x7b' :: (contents ++ ['\x7d']) := by
      have htext : (Piece.rawTag contents).text.drop 2 =
          '\x7b' :: (contents ++ ['\x7d']) ++ Source.closing := by
        simp [Piece.text, Source.opening]
      rw [htext, dropLast_dropLast_closing]
    rw [Tag.ofSlice, hinner]
    simpa using h

/-- A comment spans its contents in its braces. -/
theorem Tag.spans_of_comment {contents rest : List Char} {trimmed : Bool}
    (h : startsComment (contents ++ commentEnd trimmed ++ rest) = true) :
    Tag.comment.Spans (Piece.comment contents trimmed).text := by
  obtain ⟨dashes, hends⟩ : ∃ dashes, commentEnd trimmed = '-' :: dashes ++ Source.closing := by
    cases trimmed
    · exact ⟨['-'], rfl⟩
    · exact ⟨['-', '~'], rfl⟩
  obtain ⟨more, hbang⟩ := exists_bang_of_startsComment h contents (dashes ++ Source.closing) rest
    (by simp [hends])
  have hstart : contents ++ '-' :: dashes = '!' :: (more ++ '-' :: dashes) ∨
      contents ++ '-' :: dashes = '~' :: '!' :: (more ++ '-' :: dashes) :=
    hbang.imp (fun h => by rw [h]; rfl) fun h => by rw [h]; rfl
  have hspans : Tag.comment.Spans
      (Source.opening ++ (contents ++ '-' :: dashes) ++ Source.closing) :=
    Tag.spans_of_contents (by rcases hbang with h | h <;> simp [h]) (Tag.ofContents_bang hstart)
  simpa [Piece.text, hends] using hspans

/-- What a tag is, is told by its slice. -/
theorem Tag.spans_of_cutTag {cs rest : List Char} {piece : Piece} {tag : Tag}
    (h : cutTag cs = (piece, rest)) (ht : piece.tag? = some (.ok tag)) : tag.Spans piece.text := by
  unfold cutTag at h
  split at h
  · split at h
    · obtain ⟨rfl, -⟩ := Prod.mk.inj h
      exact Tag.spans_of_rawContents (Option.some.inj ht)
    · obtain ⟨rfl, -⟩ := Prod.mk.inj h
      cases ht
  · next hraw =>
    -- a brace at the start would have made it a tag of three braces
    have hfirst : ∀ contents more, cs = contents ++ more → contents.head? ≠ some '\x7b' := by
      rintro contents more rfl hbrace
      cases contents with
      | nil => cases hbrace
      | cons c contents =>
        obtain rfl := Option.some.inj hbrace
        exact hraw _ rfl
    split at h
    · next hstart =>
      split at h
      · next hb =>
        obtain ⟨rfl, -⟩ := Prod.mk.inj h
        have hcs := Text.breakAt_eq_some hb
        obtain rfl := Except.ok.inj (Option.some.inj ht)
        rw [hcs] at hstart
        exact Tag.spans_of_comment hstart
      · split at h
        · next hb =>
          obtain ⟨rfl, -⟩ := Prod.mk.inj h
          have hcs := Text.breakAt_eq_some hb
          obtain rfl := Except.ok.inj (Option.some.inj ht)
          rw [hcs] at hstart
          exact Tag.spans_of_comment hstart
        · obtain ⟨rfl, -⟩ := Prod.mk.inj h
          cases ht
    · split at h
      · next hb =>
        obtain ⟨rfl, -⟩ := Prod.mk.inj h
        have hcs := breakAtClosing_eq_some hb
        exact Tag.spans_of_contents (hfirst _ _ (by rw [hcs, List.append_assoc]))
          (Option.some.inj ht)
      · obtain ⟨rfl, -⟩ := Prod.mk.inj h
        cases ht

/-! ### Slices -/

/-- A slice of a template text. -/
inductive Slice where
  /-- Text outside of tags. -/
  | run (text : List Char)
  /-- A tag with its braces. -/
  | tag (text : List Char) (tag : Tag)

namespace Slice

/-- The text of a slice. -/
def text : Slice → List Char
  | run text | tag text _ => text

/-- Whether a slice is a comment. -/
def isComment : Slice → Bool
  | tag _ .comment => true
  | _ => false

/-- A slice that is a comment is a tag. -/
theorem isComment_eq_true {slice : Slice} (h : slice.isComment = true) :
    ∃ text, slice = tag text .comment := by
  cases slice with
  | run text => cases h
  | tag text tag =>
    cases tag with
    | comment => exact ⟨text, rfl⟩
    | _ => cases h

end Slice

/-- The bytes that slices take side by side. -/
def bytesOf (slices : List Slice) : Nat :=
  Text.byteSize (slices.flatMap Slice.text)

/-- Whether a line break directly after the slices belongs to a tag of a block: it is the last slice
but for comments. -/
def eatsAfter (before : List Slice) : Bool :=
  match (before.filter fun slice => !slice.isComment).getLast? with
  | some (.tag _ tag) => tag.eatsLineBreak
  | _ => false

/-- What a slice leaves after those before it. -/
def Slice.tokens (before : List Slice) : Slice → List Token
  | run text => textTokens (if eatsAfter before then withoutLineBreak text else text)
  | tag _ .comment => []
  | tag text t => [.tag t (Span.ofBytes (bytesOf before) (bytesOf before + Text.byteSize text))]

/-- What slices leave after those before them. -/
def tokensFrom (before : List Slice) : List Slice → List Token
  | [] => []
  | slice :: slices => slice.tokens before ++ tokensFrom (before ++ [slice]) slices

/-- The first byte of a tag and the byte after its last one, unless it is a comment. -/
def Slice.places (before : List Slice) : Slice → List (Nat × Nat)
  | run _ | tag _ .comment => []
  | tag text _ => [(bytesOf before, bytesOf before + Text.byteSize text)]

/-- The places of the tags among slices. -/
def placesFrom (before : List Slice) : List Slice → List (Nat × Nat)
  | [] => []
  | slice :: slices => slice.places before ++ placesFrom (before ++ [slice]) slices

/-- A text is tiled by its tags and the runs of text between them. -/
structure Tiling (source : List Char) (slices : List Slice) : Prop where
  whole : slices.flatMap Slice.text = source
  tags : ∀ text tag, .tag text tag ∈ slices → tag.Spans text
  runs : ∀ text, .run text ∈ slices → text ≠ [] ∧ ¬opening <:+: text
  apart : ∀ x y, ¬[.run x, .run y] <:+: slices

namespace Tiling

variable {source : List Char} {slices : List Slice}

/-- The empty text has no slices. -/
theorem nil : Tiling [] [] where
  whole := rfl
  tags _ _ h := (List.not_mem_nil h).elim
  runs _ h := (List.not_mem_nil h).elim
  apart _ _ h := by cases List.infix_nil.mp h

/-- A run of text is tiled by itself. -/
theorem single {text : List Char} (hne : text ≠ []) (h : ¬opening <:+: text) :
    Tiling text [.run text] where
  whole := by simp [Slice.text]
  tags _ _ hm := by simp at hm
  runs _ hm := by
    obtain rfl : _ = text := by simpa using hm
    exact ⟨hne, h⟩
  apart x y hm := by
    have := hm.length_le
    simp at this

/-- A tag in front of a tiled text tiles both. -/
theorem consTag {text : List Char} {tag : Tag} (h : tag.Spans text) (hs : Tiling source slices) :
    Tiling (text ++ source) (.tag text tag :: slices) where
  whole := by rw [List.flatMap_cons, hs.whole, Slice.text]
  tags _ _ hm := by
    rcases List.mem_cons.mp hm with heq | hm
    · obtain ⟨rfl, rfl⟩ := Slice.tag.inj heq
      exact h
    · exact hs.tags _ _ hm
  runs _ hm := by
    rcases List.mem_cons.mp hm with heq | hm
    · cases heq
    · exact hs.runs _ hm
  apart x y hm := by
    rcases List.infix_cons_iff.mp hm with hm | hm
    · cases (List.cons_prefix_cons.mp hm).1
    · exact hs.apart x y hm

/-- A run of text goes before a tag. -/
theorem consRun {text tagText : List Char} {tag : Tag} (hne : text ≠ []) (h : ¬opening <:+: text)
    (hs : Tiling source (.tag tagText tag :: slices)) :
    Tiling (text ++ source) (.run text :: .tag tagText tag :: slices) where
  whole := by rw [List.flatMap_cons, hs.whole, Slice.text]
  tags _ _ hm := by
    rcases List.mem_cons.mp hm with heq | hm
    · cases heq
    · exact hs.tags _ _ hm
  runs _ hm := by
    rcases List.mem_cons.mp hm with heq | hm
    · obtain rfl := Slice.run.inj heq
      exact ⟨hne, h⟩
    · exact hs.runs _ hm
  apart x y hm := by
    rcases List.infix_cons_iff.mp hm with hm | hm
    · cases (List.cons_prefix_cons.mp (List.cons_prefix_cons.mp hm).2).1
    · exact hs.apart x y hm

end Tiling

/-! ### Tokens -/

/-- A further slice adds its bytes. -/
theorem bytesOf_concat (before : List Slice) (slice : Slice) :
    bytesOf (before ++ [slice]) = bytesOf before + Text.byteSize slice.text := by
  simp [bytesOf, Text.byteSize_append]

/-- After a run of text nothing is eaten. -/
theorem eatsAfter_concat_run (before : List Slice) (text : List Char) :
    eatsAfter (before ++ [.run text]) = false := by
  simp [eatsAfter, Slice.isComment]

/-- A comment eats what is eaten before it. -/
theorem eatsAfter_concat_comment (before : List Slice) (text : List Char) :
    eatsAfter (before ++ [.tag text .comment]) = eatsAfter before := by
  simp [eatsAfter, Slice.isComment]

/-- After a tag that is no comment, the tag says what is eaten. -/
theorem eatsAfter_concat_tag (before : List Slice) (text : List Char) {tag : Tag}
    (h : tag ≠ .comment) : eatsAfter (before ++ [.tag text tag]) = tag.eatsLineBreak := by
  have hslice : (Slice.tag text tag).isComment = false := by
    cases tag with
    | comment => exact absurd rfl h
    | _ => rfl
  simp [eatsAfter, hslice]

/-- A tag of a block stands before a place, and nothing but comments between the two. -/
def FollowsBlock (before : List Slice) : Prop :=
  ∃ earlier text tag comments, before = earlier ++ .tag text tag :: comments ∧
    tag.eatsLineBreak = true ∧ ∀ slice ∈ comments, slice.isComment = true

/-- A line break belongs to a tag of a block when at most comments stand between the two. -/
theorem eatsAfter_iff (before : List Slice) : eatsAfter before = true ↔ FollowsBlock before := by
  constructor
  · intro h
    induction before using List.reverseRecOn with
    | nil => cases h
    | append_singleton before slice ih =>
      cases slice with
      | run text => rw [eatsAfter_concat_run] at h; cases h
      | tag text tag =>
        by_cases htag : tag = .comment
        · subst htag
          rw [eatsAfter_concat_comment] at h
          obtain ⟨earlier, text', tag', comments, rfl, heats, hcomments⟩ := ih h
          refine ⟨earlier, text', tag', comments ++ [.tag text .comment], by simp, heats, ?_⟩
          intro slice hm
          rcases List.mem_append.mp hm with hm | hm
          · exact hcomments slice hm
          · rw [List.mem_singleton.mp hm]
            rfl
        · rw [eatsAfter_concat_tag _ _ htag] at h
          exact ⟨before, text, tag, [], rfl, h, by simp⟩
  · rintro ⟨earlier, text, tag, comments, rfl, heats, hcomments⟩
    have htag : tag ≠ .comment := by rintro rfl; cases heats
    induction comments using List.reverseRecOn with
    | nil => rw [eatsAfter_concat_tag _ _ htag, heats]
    | append_singleton comments slice ih =>
      obtain ⟨text', rfl⟩ := Slice.isComment_eq_true (hcomments slice (by simp))
      rw [← List.cons_append, ← List.append_assoc, eatsAfter_concat_comment]
      exact ih fun slice hm => hcomments slice (by simp [hm])

/-- A run leaves its text, without the line break that it starts with if it follows a block. -/
theorem Slice.tokens_run (before : List Slice) (text : List Char) :
    (FollowsBlock before → (run text).tokens before = textTokens (withoutLineBreak text)) ∧
      (¬FollowsBlock before → (run text).tokens before = textTokens text) := by
  rw [← eatsAfter_iff, tokens]
  exact ⟨fun h => by rw [if_pos h], fun h => by rw [if_neg h]⟩

/-- What a run of text leaves, and what the pieces after it leave. -/
theorem ofPieces_run_eq_ok {before : List Slice} {text : List Char} {pieces : List Piece}
    {tokens : List Token}
    (h : Token.ofPieces (bytesOf before) (eatsAfter before) (.run text :: pieces) = .ok tokens) :
    ∃ rest, Token.ofPieces (bytesOf (before ++ [.run text])) (eatsAfter (before ++ [.run text]))
        pieces = .ok rest ∧ tokens = (Slice.run text).tokens before ++ rest := by
  obtain ⟨rest, hrest, h⟩ := bind_eq_ok.mp h
  refine ⟨rest, ?_, (Except.ok.inj h).symm⟩
  rw [bytesOf_concat, eatsAfter_concat_run]
  exact hrest

/-- What a tag leaves, and what the pieces after it leave. -/
theorem ofPieces_tag_eq_ok {before : List Slice} {piece : Piece} {pieces : List Piece}
    {tokens : List Token} (hrun : piece.isRun = false)
    (h : Token.ofPieces (bytesOf before) (eatsAfter before) (piece :: pieces) = .ok tokens) :
    ∃ tag rest, piece.tag? = some (.ok tag) ∧
      Token.ofPieces (bytesOf (before ++ [.tag piece.text tag]))
        (eatsAfter (before ++ [.tag piece.text tag])) pieces = .ok rest ∧
      tokens = (Slice.tag piece.text tag).tokens before ++ rest := by
  rw [Token.ofPieces] at h
  split at h
  · next hnone =>
    cases piece with
    | run text => cases hrun
    | _ => cases hnone
  · cases h
  · next hcomment =>
    refine ⟨.comment, tokens, hcomment, ?_, rfl⟩
    rw [bytesOf_concat, eatsAfter_concat_comment]
    exact h
  · next tag hne htag =>
    obtain ⟨rest, hrest, h⟩ := bind_eq_ok.mp h
    have hcomment : tag ≠ .comment := fun heq => hne heq
    refine ⟨tag, rest, htag, ?_, ?_⟩
    · rw [bytesOf_concat, eatsAfter_concat_tag _ _ hcomment]
      exact hrest
    · rw [← Except.ok.inj h]
      cases tag with
      | comment => exact absurd rfl hcomment
      | _ => rfl

/-- The pieces of a text that has tokens tile it, and the tokens are what the slices leave. -/
theorem tiling_of_ofPieces (cs : List Char) (before : List Slice) {tokens : List Token}
    (h : Token.ofPieces (bytesOf before) (eatsAfter before) (cut cs) = .ok tokens) :
    ∃ slices, Tiling cs slices ∧ tokens = tokensFrom before slices := by
  cases hb : Text.breakAt opening cs with
  | none =>
    rw [cut_of_none hb] at h
    cases cs with
    | nil => exact ⟨[], .nil, (Except.ok.inj h).symm⟩
    | cons c cs =>
      obtain ⟨rest, hrest, rfl⟩ := ofPieces_run_eq_ok h
      obtain rfl := Except.ok.inj hrest
      exact ⟨[.run (c :: cs)], .single (List.cons_ne_nil c cs) (Text.absent_of_breakAt_eq_none hb),
        rfl⟩
  | some found =>
    obtain ⟨run, more⟩ := found
    obtain ⟨⟨piece, after⟩, hp⟩ : ∃ x, cutTag more = x := ⟨_, rfl⟩
    have hrun : piece.isRun = false := by simpa [hp] using isRun_cutTag more
    obtain ⟨hcs, hlt⟩ := breakAt_opening_eq_some hb hp
    rw [cut_eq_cons hb hp] at h
    have htag : ∀ {before : List Slice} {tokens : List Token},
        Token.ofPieces (bytesOf before) (eatsAfter before) (piece :: cut after) = .ok tokens →
        ∃ tag slices, Tiling (piece.text ++ after) (.tag piece.text tag :: slices) ∧
          tokens = tokensFrom before (.tag piece.text tag :: slices) := by
      intro before tokens h
      obtain ⟨tag, rest, htag, hrest, rfl⟩ := ofPieces_tag_eq_ok hrun h
      obtain ⟨slices, hslices, rfl⟩ := tiling_of_ofPieces after _ hrest
      exact ⟨tag, slices, hslices.consTag (Tag.spans_of_cutTag hp htag), rfl⟩
    rw [hcs, List.append_assoc]
    cases run with
    | nil =>
      obtain ⟨tag, slices, hslices, rfl⟩ := htag h
      exact ⟨_, hslices, rfl⟩
    | cons c run =>
      obtain ⟨rest, hrest, rfl⟩ := ofPieces_run_eq_ok h
      obtain ⟨tag, slices, hslices, rfl⟩ := htag hrest
      exact ⟨_, hslices.consRun (List.cons_ne_nil c run)
        (Text.absent_of_breakAt (by decide) hb), rfl⟩
termination_by cs.length

/-! ### Places -/

/-- The bytes that a token takes, if it is a tag. -/
def Token.span? : Token → Option Span
  | .text _ => none
  | .tag _ span => some span

/-- The places follow each other, and none is empty. -/
structure Ascending (start stop : Nat) (places : List (Nat × Nat)) : Prop where
  disjoint : places.Pairwise fun p q => p.2 ≤ q.1
  within : ∀ p ∈ places, start ≤ p.1 ∧ p.1 < p.2 ∧ p.2 ≤ stop

/-- Text has no places. -/
theorem filterMap_span?_textTokens (cs : List Char) :
    (textTokens cs).filterMap Token.span? = [] := by
  unfold textTokens
  split <;> rfl

/-- The tokens that are tags take the places of the tags. -/
theorem filterMap_span?_tokensFrom (before slices : List Slice) :
    (tokensFrom before slices).filterMap Token.span? =
      (placesFrom before slices).map fun p => Span.ofBytes p.1 p.2 := by
  induction slices generalizing before with
  | nil => rfl
  | cons slice slices ih =>
    rw [tokensFrom, List.filterMap_append, ih, placesFrom, List.map_append]
    congr 1
    cases slice with
    | run text => exact filterMap_span?_textTokens _
    | tag text tag => cases tag <;> rfl

/-- The bytes of slices add up. -/
theorem bytesOf_append (before slices : List Slice) :
    bytesOf (before ++ slices) = bytesOf before + bytesOf slices := by
  simp [bytesOf, Text.byteSize_append]

/-- A slice takes at most one place, from its first byte to the one after its last. -/
theorem Slice.places_cases (before : List Slice) (slice : Slice) : slice.places before = [] ∨
    ∃ text tag, slice = .tag text tag ∧
      slice.places before = [(bytesOf before, bytesOf before + Text.byteSize text)] := by
  cases slice with
  | run text => exact .inl rfl
  | tag text tag =>
    cases tag with
    | comment => exact .inl rfl
    | _ => exact .inr ⟨text, _, rfl, rfl⟩

/-- The places of tags follow each other. -/
theorem ascending_placesFrom (before : List Slice) {slices : List Slice}
    (h : ∀ text tag, .tag text tag ∈ slices → text ≠ []) :
    Ascending (bytesOf before) (bytesOf (before ++ slices)) (placesFrom before slices) := by
  induction slices generalizing before with
  | nil => exact ⟨.nil, by simp [placesFrom]⟩
  | cons slice slices ih =>
    have hrest := ih (before ++ [slice]) fun text tag hm => h text tag (List.mem_cons_of_mem _ hm)
    rw [List.append_assoc, List.singleton_append, bytesOf_concat] at hrest
    have hwithin : ∀ p ∈ placesFrom (before ++ [slice]) slices,
        bytesOf before ≤ p.1 ∧ p.1 < p.2 ∧ p.2 ≤ bytesOf (before ++ slice :: slices) := by
      intro p hp
      obtain ⟨hlo, hlt, hhi⟩ := hrest.within p hp
      exact ⟨by omega, hlt, hhi⟩
    rw [placesFrom]
    rcases slice.places_cases before with hnone | ⟨text, tag, rfl, hone⟩
    · rw [hnone, List.nil_append]
      exact ⟨hrest.disjoint, hwithin⟩
    · have hsize := Text.length_le_byteSize text
      have hlength := List.length_pos_iff.mpr (h text tag List.mem_cons_self)
      have htotal : bytesOf before + Text.byteSize text ≤
          bytesOf (before ++ .tag text tag :: slices) := by
        rw [List.append_cons, bytesOf_append, bytesOf_concat, Slice.text]
        omega
      rw [hone, List.singleton_append]
      refine ⟨List.pairwise_cons.mpr ⟨fun q hq => (hrest.within q hq).1, hrest.disjoint⟩, ?_⟩
      intro p hp
      rcases List.mem_cons.mp hp with rfl | hp
      · exact ⟨Nat.le_refl _, by omega, htotal⟩
      · exact hwithin p hp

/-- The spans of a text shorter than `2 ^ 32` bytes follow each other as the places do. -/
theorem Ascending.spans {start stop : Nat} {places : List (Nat × Nat)}
    (h : Ascending start stop places) (hstop : stop < UInt32.size) :
    (places.map fun p => Span.ofBytes p.1 p.2).Pairwise (fun s t => s.hi ≤ t.lo) ∧
      ∀ s ∈ places.map fun p => Span.ofBytes p.1 p.2, s.lo < s.hi := by
  have hends : ∀ p ∈ places, (Span.ofBytes p.1 p.2).lo.toNat = p.1 ∧
      (Span.ofBytes p.1 p.2).hi.toNat = p.2 := by
    intro p hp
    obtain ⟨-, hlt, hle⟩ := h.within p hp
    have hmax : max p.2 p.1 = p.2 := by omega
    exact ⟨Span.lo_ofBytes (by omega), (Span.hi_ofBytes (by omega)).trans hmax⟩
  constructor
  · rw [List.pairwise_map]
    refine h.disjoint.imp_of_mem fun hp hq hle => ?_
    rw [UInt32.le_iff_toNat_le, (hends _ hp).2, (hends _ hq).1]
    exact hle
  · rintro s hs
    obtain ⟨p, hp, rfl⟩ := List.mem_map.mp hs
    rw [UInt32.lt_iff_toNat_lt, (hends p hp).1, (hends p hp).2]
    exact (h.within p hp).2.1

/-- The tokens of a text lose and invent nothing. The scan ends, as no text needs more rounds than
it has characters. The text is tiled by its tags and the runs of text between them, and the tokens
are what these slices leave, one after the other: a run leaves its text, without the line break that
it starts with exactly if nothing but comments stands between the run and a tag of a block. The
tokens that are tags take the places of the tags that are no comments, which follow each other. -/
theorem Token.tiled (source : String) :
    (∀ rounds, source.toList.length < rounds →
      cutWithin rounds source.toList = cut source.toList) ∧
    ∀ tokens, Token.ofText source = .ok tokens → ∃ slices,
      Tiling source.toList slices ∧
      tokens = tokensFrom [] slices ∧
      (∀ before text,
        (FollowsBlock before →
          (Slice.run text).tokens before = textTokens (withoutLineBreak text)) ∧
        (¬FollowsBlock before → (Slice.run text).tokens before = textTokens text)) ∧
      Ascending 0 (Text.byteSize source.toList) (placesFrom [] slices) ∧
      tokens.filterMap Token.span? =
        (placesFrom [] slices).map (fun p => Span.ofBytes p.1 p.2) ∧
      (Text.byteSize source.toList < UInt32.size →
        (tokens.filterMap Token.span?).Pairwise (fun s t => s.hi ≤ t.lo) ∧
        ∀ s ∈ tokens.filterMap Token.span?, s.lo < s.hi) := by
  refine ⟨fun rounds h => cutWithin_eq h, fun tokens h => ?_⟩
  obtain ⟨slices, htiling, rfl⟩ := tiling_of_ofPieces source.toList [] h
  have hplaces : Ascending 0 (Text.byteSize source.toList) (placesFrom [] slices) := by
    have hnonempty : ∀ text tag, .tag text tag ∈ slices → text ≠ [] := by
      rintro text tag hm rfl
      exact absurd (htiling.tags [] tag hm).starts (by decide)
    have hsize : bytesOf slices = Text.byteSize source.toList := by rw [bytesOf, htiling.whole]
    rw [← hsize]
    exact ascending_placesFrom [] hnonempty
  have hspans := filterMap_span?_tokensFrom [] slices
  refine ⟨slices, htiling, rfl, Slice.tokens_run, hplaces, hspans, fun hsize => ?_⟩
  rw [hspans]
  exact hplaces.spans hsize

/-- Of two line breaks after a block and a comment, the first belongs to the closing tag. -/
theorem Token.tiled_comment :
    let source := "\x7b\x7b#a\x7d\x7d\x7b\x7b/a\x7d\x7d\x7b\x7b!b\x7d\x7d\n\n\x7b\x7bc\x7d\x7d"
    let tokens : List Token := [.tag (.opening false [.plain (.path "a")]) ⟨0, 6⟩,
      .tag (.closing "a") ⟨6, 12⟩, .text "\n", .tag (.value true [.plain (.path "c")]) ⟨20, 25⟩]
    Token.ofText source = .ok tokens ∧
      ∃ slices, Tiling source.toList slices ∧ tokens = tokensFrom [] slices := by
  intro source tokens
  have hc : cut source.toList = [.tag ['#', 'a'], .tag ['/', 'a'], .tag ['!', 'b'],
      .run ['\n', '\n'], .tag ['c']] := by decide
  have h : Token.ofText source = .ok tokens := by
    rw [Token.ofText, hc]
    rfl
  obtain ⟨slices, htiling, htokens, -⟩ := (Token.tiled source).2 tokens h
  exact ⟨h, slices, htiling, htokens⟩

end Source

end Stencil
