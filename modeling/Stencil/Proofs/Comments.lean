import Stencil.Proofs.Chains
import Stencil.Proofs.Seams
import Stencil.Proofs.Tiling
import Stencil.Proofs.Trimming

/-!
# Comments

A comment leaves no token behind, and what stands before and after it is read as it is without the
comment. What can go wrong is that the comment ends elsewhere. A comment between braces is scanned
like any other tag: braces inside of quotes do not end it, and it ends at the first of three braces.
A comment between dashes ends at dashes and braces without a trim mark, if there are any in all of
the rest of the text, even when dashes with a trim mark come first.

`Comment.EndsBefore` asks for what makes a comment end where it should. A quote that is open in the
words of a comment, and a comment that ends with a trim mark before one that ends without, are left
out.

## Main results

* `Token.ofPieces_shift`: the tokens of pieces further on in a text.
* `breakAtClosing_of_avoids`: the end of a tag is found where it should be.
* `Comment.cut_append`: a comment is the first piece of the text it starts.
* `Token.ofText_comment`: the tokens of two texts with a comment between them.
-/

namespace Stencil

open Text

/-- The span as many bytes further on. -/
def Span.shift (n : Nat) (s : Span) : Span :=
  ⟨n.toUInt32 + s.lo, n.toUInt32 + s.hi⟩

/-- Spans of bytes are shifted by adding to both ends. -/
theorem Span.shift_ofBytes (n lo hi : Nat) :
    (ofBytes lo hi).shift n = ofBytes (n + lo) (n + hi) := by
  have hmax : max (n + hi) (n + lo) = n + max hi lo := by omega
  simp only [shift, ofBytes, hmax, Nat.toUInt32_eq, UInt32.ofNat_add]

namespace Source

/-! ### Tokens further on -/

/-- The token as many bytes further on. -/
def Token.shift (n : Nat) : Token → Token
  | .text run => .text run
  | .tag t span => .tag t (span.shift n)

/-- The tokens of text have no places to shift. -/
theorem map_shift_textTokens (n : Nat) (cs : List Char) :
    (textTokens cs).map (Token.shift n) = textTokens cs := by
  unfold textTokens
  split <;> rfl

/-- The tokens of a piece that begins later are the same tokens further on. -/
theorem Piece.tokens_shift (n : Nat) {offset : Nat} {eating : Bool} {piece : Piece}
    {tokens : List Token} (h : piece.tokens offset eating = .ok tokens) :
    piece.tokens (n + offset) eating = .ok (tokens.map (Token.shift n)) := by
  unfold Piece.tokens at h ⊢
  rcases ht : piece.tag? with _ | cause | t <;> rw [ht] at h
  · obtain rfl := Except.ok.inj h
    rw [map_shift_textTokens]
  · cases h
  · cases t with
    | comment =>
      obtain rfl := Except.ok.inj h
      rfl
    | _ =>
      obtain rfl := Except.ok.inj h
      simp only [List.map_cons, List.map_nil, Token.shift, Span.shift_ofBytes, Nat.add_assoc]

/-- The tokens of pieces that start further on in a text are as much further on. -/
theorem Token.ofPieces_shift (n : Nat) {offset : Nat} {eating : Bool} {pieces : List Piece}
    {tokens : List Token} (h : ofPieces offset eating pieces = .ok tokens) :
    ofPieces (n + offset) eating pieces = .ok (tokens.map (shift n)) := by
  induction pieces generalizing offset eating tokens with
  | nil =>
    obtain rfl := Except.ok.inj h
    rfl
  | cons piece pieces ih =>
    rw [ofPieces_cons] at h ⊢
    obtain ⟨first, hfirst, h⟩ := bind_eq_ok.mp h
    obtain ⟨rest, hrest, h⟩ := bind_eq_ok.mp h
    obtain rfl := Except.ok.inj h
    rw [Piece.tokens_shift n hfirst, Except.bind, Nat.add_assoc, ih hrest, Except.bind,
      List.map_append]

/-! ### Where comments end -/

/-- The quote that is open after a character, if any is. -/
def quoteAfter (quote : Option Char) (c : Char) : Option Char :=
  match quote with
  | some q => if c = q then none else some q
  | none => if c = '"' ∨ c = '\'' then some c else none

/-- The search for the end of a tag goes on after a character that is not the first of two closing
braces. -/
theorem breakAtClosing_cons {c : Char} {cs : List Char} (h : ¬closing <+: c :: cs)
    (quote : Option Char) : breakAtClosing quote (c :: cs) =
      (breakAtClosing (quoteAfter quote c) cs).map fun (before, rest) => (c :: before, rest) := by
  cases quote with
  | some q => rfl
  | none =>
    rw [breakAtClosing, quoteAfter]
    · split <;> rfl
    · rintro rest rfl rfl
      exact h (List.prefix_append closing rest)

/-- Two closing braces end a tag, when none stand before them and all quotes are closed. -/
theorem breakAtClosing_of_avoids {words rest : List Char} {quote : Option Char}
    (h : Avoids closing words (closing ++ rest)) (hquote : words.foldl quoteAfter quote = none) :
    breakAtClosing quote (words ++ (closing ++ rest)) = some (words, rest) := by
  induction words generalizing quote with
  | nil =>
    obtain rfl : quote = none := hquote
    rfl
  | cons c words ih =>
    have hc : ¬closing <+: c :: (words ++ (closing ++ rest)) := h.1
    rw [List.cons_append, breakAtClosing_cons hc, ih h.2 hquote]
    rfl

/-- A comment: its words stand between an exclamation mark and braces, or between dashes inside of
these, of which the closing ones may have a trim mark. -/
inductive Comment where
  | plain (words : String)
  | dashed (words : String) (trimmed : Bool)

namespace Comment

/-- The comment as it is written. -/
def text : Comment → String
  | plain words => "\x7b\x7b!" ++ words ++ "\x7d\x7d"
  | dashed words false => "\x7b\x7b!--" ++ words ++ "--\x7d\x7d"
  | dashed words true => "\x7b\x7b!--" ++ words ++ "--~\x7d\x7d"

/-- The words of a comment between braces are not taken for anything else: they have no closing
braces, do not start with dashes, do not end in a brace, and every quote in them is closed. -/
structure Plain (words : List Char) : Prop where
  closing : ¬Source.closing <:+: words
  dashes : ¬['-', '-'] <+: words
  brace : words.getLast? ≠ some '\x7d'
  quotes : words.foldl quoteAfter none = none

/-- The comment ends where it should when the given text follows. -/
def EndsBefore (after : List Char) : Comment → Prop
  | plain words => Plain words.toList
  | dashed words trimmed =>
    (∀ mark, ¬commentEnd mark <:+: '-' :: '-' :: words.toList) ∧
      (trimmed = true → ¬commentEnd false <:+: after)

/-- The piece that the comment is. -/
def piece : Comment → Piece
  | plain words => .tag ('!' :: words.toList)
  | dashed words trimmed => .comment ('!' :: '-' :: '-' :: words.toList) trimmed

/-- The text of a comment is that of its piece. -/
theorem toList_text (comment : Comment) : comment.text.toList = comment.piece.text := by
  match comment with
  | plain words | dashed words false | dashed words true =>
    simp [text, piece, Piece.text, opening, closing, commentEnd]

/-- The tag of the piece is a comment. -/
theorem tag?_piece (comment : Comment) : comment.piece.tag? = some (.ok .comment) := by
  cases comment with
  | plain words => exact congrArg some (Tag.ofContents_bang (.inl rfl))
  | dashed words trimmed => rfl

variable {after : List Char} {words : String} {trimmed : Bool}

/-- A plain comment is cut where its first end is. -/
theorem Plain.cutTag_eq (h : Plain words.toList) (after : List Char) :
    cutTag ('!' :: words.toList ++ (Source.closing ++ after)) =
      (.tag ('!' :: words.toList), after) := by
  have hstart : startsComment ('!' :: words.toList ++ (Source.closing ++ after)) = false := by
    have hdashes : ¬['-', '-'] <+: words.toList ++ (Source.closing ++ after) := fun hword =>
      h.dashes (prefix_of_notMem (by decide) hword)
    simpa [startsComment, List.isPrefixOf, ← List.isPrefixOf_iff_prefix] using hdashes
  have hends : breakAtClosing none ('!' :: words.toList ++ (Source.closing ++ after)) =
      some ('!' :: words.toList, after) := by
    have havoids : Avoids Source.closing words.toList (Source.closing ++ after) :=
      avoids_pair h.closing h.brace _
    have hmark : ¬Source.closing <+: '!' :: words.toList ++ (Source.closing ++ after) :=
      fun hword => absurd (List.cons_prefix_cons.mp hword).1 (by decide)
    exact breakAtClosing_of_avoids ⟨hmark, havoids⟩ h.quotes
  unfold cutTag
  split
  · next hraw => cases (List.cons.inj hraw).1
  · rw [hstart, hends]
    rfl

/-- The first dashes and braces without a trim mark end a comment, and those with a mark do when
none without follow. -/
theorem cutTag_dashed
    (hwords : ∀ mark, ¬commentEnd mark <:+: '-' :: '-' :: words.toList)
    (hafter : trimmed = true → ¬commentEnd false <:+: after) :
    cutTag ('!' :: '-' :: '-' :: words.toList ++ (commentEnd trimmed ++ after)) =
      (.comment ('!' :: '-' :: '-' :: words.toList) trimmed, after) := by
  have hbang : ∀ mark, ¬commentEnd mark <:+: '!' :: '-' :: '-' :: words.toList := by
    intro mark
    rw [List.infix_cons_iff, not_or]
    refine ⟨fun hword => ?_, hwords mark⟩
    cases mark <;> cases (List.cons_prefix_cons.mp hword).1
  have hfound : ∀ mark, breakAt (commentEnd mark)
      ('!' :: '-' :: '-' :: words.toList ++ (commentEnd mark ++ after)) =
        some ('!' :: '-' :: '-' :: words.toList, after) := by
    intro mark
    rw [← List.append_assoc]
    exact breakAt_of_absent (by cases mark <;> decide) (hbang mark) after
  unfold cutTag
  split
  · next hraw => cases (List.cons.inj hraw).1
  · rw [if_pos (show startsComment _ = true from rfl)]
    cases trimmed with
    | false => rw [hfound false]
    | true =>
      have hnone : breakAt (commentEnd false)
          ('!' :: '-' :: '-' :: words.toList ++ (commentEnd true ++ after)) = none := by
        have hend : ¬commentEnd false <:+: commentEnd true ++ after :=
          absent_append_of_apart (by decide) (hafter rfl)
            (apart_of_ends (by decide) (List.suffix_refl _))
        exact breakAt_eq_none (absent_append_of_apart (hbang false) hend
          (apart_of_starts (by decide) (List.prefix_append _ _)))
      rw [hnone, hfound true]

/-- A comment is the first piece of the text that it starts. -/
theorem cut_append {comment : Comment} (h : comment.EndsBefore after) :
    cut (comment.piece.text ++ after) = comment.piece :: cut after := by
  obtain ⟨body, htext, htag⟩ : ∃ body, comment.piece.text ++ after = opening ++ body ∧
      cutTag body = (comment.piece, after) := by
    cases comment with
    | plain words => exact ⟨_, by simp [piece, Piece.text], Plain.cutTag_eq h after⟩
    | dashed words trimmed => exact ⟨_, by simp [piece, Piece.text], cutTag_dashed h.1 h.2⟩
  have hopening : breakAt opening (opening ++ body) = some ([], body) := rfl
  rw [htext, cut_eq_cons hopening htag]
  rfl

end Comment

/-! ### Comments between texts -/

/-- What is asked of two texts that a comment stands between. -/
structure Surrounds (a b : String) : Prop where
  /-- The first text does not end in a brace, which might open a tag. -/
  brace : a.toList.getLast? ≠ some '\x7b'
  /-- No comment of the first text ends with a trim mark. -/
  comments : ¬commentEnd true <:+: a.toList
  /-- The second text starts with no line break, which might belong to a tag of the first one. -/
  lineBreak : startsLine b.toList = false
  /-- The second text does not start with a comment. -/
  first : ∀ piece ∈ (cut b.toList).head?, piece.isComment = false

/-- A comment between two texts leaves nothing: the tokens are those of the one and those of the
other, further on by what stands before them. -/
theorem Token.ofText_comment {a b : String} {comment : Comment} {before after : List Token}
    (h : Surrounds a b) (hends : comment.EndsBefore b.toList)
    (ha : Token.ofText a = .ok before) (hb : Token.ofText b = .ok after) :
    Token.ofText (a ++ comment.text ++ b) =
      .ok (before ++ after.map (shift (byteSize (a ++ comment.text).toList))) := by
  have hsigns := ofText_eq_ok.mp ⟨before, ha, rfl⟩
  have hstays : ∀ piece ∈ cut a.toList, piece.Stays := stays_of_ofPieces hsigns
    fun piece hp hc => h.comments (hc.trans (text_infix_of_mem_cut hp))
  have hcut : cut (a ++ comment.text ++ b).toList =
      cut a.toList ++ comment.piece :: cut b.toList := by
    rw [String.toList_append, String.toList_append, List.append_assoc,
      Source.cut_append hstays h.brace, comment.toList_text, Comment.cut_append hends,
      joinRuns_of_tag (isRun_of_tag? comment.tag?_piece)]
  have hsize : byteSize (a ++ comment.text).toList =
      0 + byteSize ((cut a.toList).flatMap Piece.text) + byteSize comment.piece.text := by
    rw [String.toList_append, byteSize_append, comment.toList_text, text_cut, Nat.zero_add]
  have hrest : ofPieces (byteSize (a ++ comment.text).toList)
      ((cut a.toList).foldl Piece.eats false) (cut b.toList) =
        .ok (after.map (shift (byteSize (a ++ comment.text).toList))) := by
    rw [ofPieces_eating (startsLine_leadingText? h.lineBreak h.first)]
    exact ofPieces_shift _ hb
  rw [Token.ofText, hcut]
  refine ofPieces_append ha ?_
  rw [ofPieces_cons, (Piece.of_comment comment.tag?_piece _).2, ← hsize, hrest]
  simp only [Piece.tokens, comment.tag?_piece, Except.bind, List.nil_append]

/-- A quoted apostrophe in a comment after a block, and braces in a comment before another one. -/
theorem Token.ofText_comment_quoted :
    let a := "\x7b\x7b#a\x7d\x7dx\x7b\x7b/a\x7d\x7d"
    let b := "z\x7b\x7b!w\x7d\x7d\x7b\x7bc\x7d\x7d"
    let before : List Token := [.tag (.opening false [.plain (.path "a")]) ⟨0, 6⟩, .text "x",
      .tag (.closing "a") ⟨7, 13⟩]
    Token.ofText (a ++ (Comment.plain "\"it's\"").text ++ b) = .ok (before ++
        [.text "z", .tag (.value true [.plain (.path "c")]) ⟨31, 36⟩]) ∧
      Token.ofText (a ++ (Comment.dashed " it's \x7d\x7d " true).text ++ b) = .ok (before ++
        [.text "z", .tag (.value true [.plain (.path "c")]) ⟨39, 44⟩]) := by
  intro a b before
  have hca : cut a.toList = [.tag ['#', 'a'], .run ['x'], .tag ['/', 'a']] := by decide
  have hcb : cut b.toList = [.run ['z'], .tag ['!', 'w'], .tag ['c']] := by decide
  have ha : Token.ofText a = .ok before := by
    rw [Token.ofText, hca]
    rfl
  have hb : Token.ofText b = .ok [.text "z", .tag (.value true [.plain (.path "c")]) ⟨7, 12⟩] := by
    rw [Token.ofText, hcb]
    rfl
  have h : Surrounds a b := by
    refine ⟨by decide, by decide, by decide, ?_⟩
    rw [hcb]
    rintro _ ⟨⟩
    rfl
  refine ⟨?_, ?_⟩
  · have hends : (Comment.plain "\"it's\"").EndsBefore b.toList :=
      ⟨by decide, by decide, by decide, by decide⟩
    have hsize : byteSize (a ++ (Comment.plain "\"it's\"").text).toList = 24 := by decide
    have hall := Token.ofText_comment h hends ha hb
    rw [hsize] at hall
    exact hall
  · have hends : (Comment.dashed " it's \x7d\x7d " true).EndsBefore b.toList :=
      ⟨by decide, fun _ => by decide⟩
    have hsize : byteSize (a ++ (Comment.dashed " it's \x7d\x7d " true).text).toList = 32 := by
      decide
    have hall := Token.ofText_comment h hends ha hb
    rw [hsize] at hall
    exact hall

/-- A comment between braces ends before the last of three braces, and does not end at all when a
quote in it is open. A comment with a trim mark at its end takes up the text before the end of a
later comment without one. -/
theorem Token.ofText_comment_fails :
    Token.ofText "" = .ok [] ∧
      (¬closing <:+: "x\x7d".toList ∧ ¬['-', '-'] <+: "x\x7d".toList ∧
        Token.ofText ("" ++ (Comment.plain "x\x7d").text ++ "") = .ok [.text "\x7d"]) ∧
      (¬closing <:+: "it's".toList ∧ ¬['-', '-'] <+: "it's".toList ∧
        Token.ofText ("" ++ (Comment.plain "it's").text ++ "") =
          .error ⟨.unclosedTag, ⟨0, 9⟩⟩) ∧
      Surrounds "" "y\x7b\x7b!--z--\x7d\x7d" ∧
      Token.ofText "y\x7b\x7b!--z--\x7d\x7d" = .ok [.text "y"] ∧
      (∀ mark, ¬commentEnd mark <:+: "--x".toList) ∧
      Token.ofText ("" ++ (Comment.dashed "x" true).text ++ "y\x7b\x7b!--z--\x7d\x7d") =
        .ok [] := by
  refine ⟨rfl, ⟨by decide, by decide, ?_⟩, ⟨by decide, by decide, ?_⟩,
    ⟨by decide, by decide, by decide, by decide⟩, ?_, by decide, ?_⟩
  · rfl
  · rfl
  · rfl
  · rfl

end Source

end Stencil
