import Stencil.Proofs.Adjoining
import Stencil.Proofs.Tiling

/-!
# Where faults show

A template text that cannot be read is reported with the place of a tag. The tokens carry the places
of their tags, an open block keeps the place of the tag that opened it, and whatever is malformed
shows at the tag that is taken in or at the tag of a block that is open. So all that has to be known
of a place is that the tags of the text have it: `FaultsAt` says that of the faults of one step, and
what holds of its result is what the next step relies on.

The tag that is reported goes from two opening braces to two closing ones, or to the end of the text
when it is never closed, since no piece follows such a tag. Its place is a word of thirty-two bits,
and says where the tag starts as long as the text is shorter than `2 ^ 32` bytes; the line and the
column that are shown are then those of the tag.

## Main results

* `Nesting.push_faultsAt`: a token is taken in, or a fault shows at its tag or at an open block.
* `Node.ofTokens_faultsAt`: faults of nodes show at tags of tokens.
* `Token.ofText_faultsAt`: the tags of tokens, and faults of tokens, are tags of the text.
* `Span.lineColumn_eq`: the line and the column of a place.
* `read_faultsAt`: where a text that cannot be read is at fault.
-/

namespace Stencil

open Text

namespace Source

/-- The result has a property, or the fault shows at a place that has another one. -/
def FaultsAt {α : Type} (P : Span → Prop) (Q : α → Prop) : Except Fault α → Prop
  | .ok a => Q a
  | .error fault => P fault.span

/-- One computation after the other faults where either of them does. -/
theorem FaultsAt.bind {α β : Type} {P : Span → Prop} {Q : α → Prop} {R : β → Prop}
    {m : Except Fault α} {f : α → Except Fault β} (h : FaultsAt P Q m)
    (hf : ∀ a, Q a → FaultsAt P R (f a)) : FaultsAt P R (m >>= f) := by
  cases m with
  | ok a => exact hf a h
  | error fault => exact h

section Steps

variable {P : Span → Prop}

/-! ### Blocks -/

namespace OpenBlock

/-- A block whose body ends in the wrong way faults at its opener. -/
theorem endBody_faultsAt {b : OpenBlock} (h : P b.span) :
    FaultsAt P (fun _ => True) b.endBody := by
  unfold endBody
  split
  · trivial
  · split
    · exact h
    · trivial
  · trivial

/-- A block that lacks its condition faults at its opener. -/
theorem toNode_faultsAt {b : OpenBlock} (h : P b.span) :
    FaultsAt P (fun _ => True) b.toNode := by
  unfold toNode
  split
  · exact h
  · trivial

/-- Closing a block leaves some of the blocks around it. -/
theorem close_faultsAt {b : OpenBlock} {bs : List OpenBlock} (h : P b.span)
    (hbs : ∀ b ∈ bs, P b.span) :
    FaultsAt P (fun closed => ∀ b ∈ closed.2, P b.span) (b.close bs) := by
  induction bs generalizing b with
  | nil =>
    rw [close]
    exact (toNode_faultsAt h).bind fun node _ => List.forall_mem_nil _
  | cons outer others ih =>
    rw [close]
    refine (toNode_faultsAt h).bind fun node _ => ?_
    obtain ⟨houter, hothers⟩ := List.forall_mem_cons.mp hbs
    dsimp only
    split
    · exact ih houter hothers
    · exact hbs

/-- An opener that is malformed faults where it stands. -/
theorem ofParams_faultsAt {span : Span} (h : P span) (inverted : Bool) (params : List Param)
    (closer : Option String) :
    FaultsAt P (fun b => P b.span) (ofParams inverted params span closer) := by
  unfold ofParams
  split <;> exact h

end OpenBlock

/-! ### Tokens -/

namespace Nesting

/-- The open blocks have been opened at places with the property. -/
def Placed (P : Span → Prop) (n : Nesting) : Prop :=
  ∀ b ∈ n.blocks, P b.span

variable {n : Nesting} {span : Span}

/-- A node leaves the places of the open blocks as they are. -/
theorem Placed.add (h : n.Placed P) (node : Node) : (n.add node).Placed P := by
  obtain ⟨nodes, _ | ⟨b, bs⟩⟩ := n
  · exact h
  · have hspan : (b.add node).span = b.span := by
      unfold OpenBlock.add
      split <;> rfl
    obtain ⟨hb, hbs⟩ := List.forall_mem_cons.mp h
    exact List.forall_mem_cons.mpr ⟨hspan ▸ hb, hbs⟩

/-- A malformed node faults where it stands. -/
theorem addNode_faultsAt (hn : n.Placed P) (h : P span) (node : Except Malformed Node) :
    FaultsAt P (Placed P) (n.addNode span node) := by
  cases node with
  | ok node => exact hn.add node
  | error cause => exact h

/-- A branch faults where it stands. -/
theorem addBranch_faultsAt (hn : n.Placed P) (h : P span) (params : List Param) :
    FaultsAt P (Placed P) (n.addBranch params span) := by
  obtain ⟨nodes, _ | ⟨b, bs⟩⟩ := n
  · exact h
  · obtain ⟨hb, hbs⟩ := List.forall_mem_cons.mp hn
    unfold addBranch
    dsimp only
    split
    · exact h
    · refine (OpenBlock.endBody_faultsAt hb).bind fun _ _ => ?_
      split
      · exact List.forall_mem_cons.mpr ⟨hb, hbs⟩
      · refine (OpenBlock.ofParams_faultsAt h false params _).bind fun chained hchained => ?_
        exact List.forall_mem_cons.mpr ⟨hchained, hn⟩

/-- A closing tag faults where it stands, or at the opener of its block. -/
theorem addClosing_faultsAt (hn : n.Placed P) (h : P span) (name : String) :
    FaultsAt P (Placed P) (n.addClosing name span) := by
  obtain ⟨nodes, _ | ⟨b, bs⟩⟩ := n
  · exact h
  · obtain ⟨hb, hbs⟩ := List.forall_mem_cons.mp hn
    unfold addClosing
    refine (OpenBlock.endBody_faultsAt hb).bind fun _ _ => ?_
    split
    · refine (OpenBlock.close_faultsAt hb hbs).bind fun (node, outer) houter => ?_
      exact Placed.add (n := ⟨nodes, outer⟩) houter node
    · exact h

/-- A token is taken in, or a fault shows at its tag or at the tag of an open block. -/
theorem push_faultsAt (hn : n.Placed P) {token : Token} (h : ∀ s ∈ token.span?, P s) :
    FaultsAt P (Placed P) (n.push token) := by
  match token with
  | .text text => exact hn.add _
  | .tag (.value escaped params) span => exact addNode_faultsAt hn (h span rfl) _
  | .tag (.template params) span => exact addNode_faultsAt hn (h span rfl) _
  | .tag (.opening inverted params) span =>
    refine (OpenBlock.ofParams_faultsAt (h span rfl) inverted params none).bind fun b hb => ?_
    exact List.forall_mem_cons.mpr ⟨hb, hn⟩
  | .tag (.branch params) span => exact addBranch_faultsAt hn (h span rfl) params
  | .tag (.closing name) span => exact addClosing_faultsAt hn (h span rfl) name
  | .tag .comment span => exact hn

/-- Tokens are taken in, or a fault shows at one of their tags or at the tag of an open block. -/
theorem take_faultsAt (hn : n.Placed P) {tokens : List Token}
    (h : ∀ token ∈ tokens, ∀ s ∈ token.span?, P s) : FaultsAt P (Placed P) (n.take tokens) := by
  induction tokens generalizing n with
  | nil => exact hn
  | cons token tokens ih =>
    obtain ⟨htoken, htokens⟩ := List.forall_mem_cons.mp h
    exact (push_faultsAt hn htoken).bind fun n' hn' => ih hn' htokens

/-- At the end, a fault is at the opener of a block that is still open. -/
theorem finish_faultsAt (hn : n.Placed P) : FaultsAt P (fun _ => True) n.finish := by
  obtain ⟨nodes, _ | ⟨b, bs⟩⟩ := n
  · trivial
  · have hb : P b.span := hn b List.mem_cons_self
    exact (OpenBlock.endBody_faultsAt hb).bind fun _ _ => hb

end Nesting

/-- Faults of nodes show at tags of the tokens that the nodes are gathered from. -/
theorem Node.ofTokens_faultsAt {tokens : List Token}
    (h : ∀ token ∈ tokens, ∀ s ∈ token.span?, P s) :
    FaultsAt P (fun _ => True) (Node.ofTokens tokens) := by
  have hempty : Nesting.Placed P {} := List.forall_mem_nil _
  exact (Nesting.take_faultsAt hempty h).bind fun n hn => Nesting.finish_faultsAt hn

/-! ### Pieces -/

/-- A piece faults only when it is no run of text, at its own place. -/
theorem Piece.tokens_faultsAt {piece : Piece} {offset : Nat} (eating : Bool)
    (h : piece.isRun = false → P (Span.ofBytes offset (offset + byteSize piece.text))) :
    FaultsAt P (fun tokens => ∀ token ∈ tokens, ∀ s ∈ token.span?, P s)
      (piece.tokens offset eating) := by
  unfold Piece.tokens
  rcases ht : piece.tag? with _ | cause | t
  · intro token htoken s hs
    rw [List.filterMap_eq_nil_iff.mp (filterMap_span?_textTokens _) token htoken] at hs
    cases hs
  · exact h (isRun_of_tag? ht)
  · have hplace := h (isRun_of_tag? ht)
    cases t with
    | comment => exact List.forall_mem_nil _
    | _ =>
      refine List.forall_mem_singleton.mpr ?_
      rintro _ ⟨⟩
      exact hplace

/-- Faults of the tokens of pieces show at pieces that are tags, and so do the tokens that are
tags. -/
theorem Token.ofPieces_faultsAt {pieces : List Piece} {offset : Nat} (eating : Bool)
    (h : ∀ earlier piece later, pieces = earlier ++ piece :: later → piece.isRun = false →
      P (Span.ofBytes (offset + byteSize (earlier.flatMap Piece.text))
        (offset + byteSize (earlier.flatMap Piece.text) + byteSize piece.text))) :
    FaultsAt P (fun tokens => ∀ token ∈ tokens, ∀ s ∈ token.span?, P s)
      (ofPieces offset eating pieces) := by
  induction pieces generalizing offset eating with
  | nil => exact List.forall_mem_nil _
  | cons piece pieces ih =>
    rw [ofPieces_cons]
    have hfirst := Piece.tokens_faultsAt eating fun hrun => h [] piece pieces rfl hrun
    refine hfirst.bind fun first hfirst => ?_
    have hplaces : ∀ earlier piece' later, pieces = earlier ++ piece' :: later →
        piece'.isRun = false →
          P (Span.ofBytes (offset + byteSize piece.text + byteSize (earlier.flatMap Piece.text))
            (offset + byteSize piece.text + byteSize (earlier.flatMap Piece.text) +
              byteSize piece'.text)) := by
      intro earlier piece' later heq hrun
      have hplace := h (piece :: earlier) piece' later (by rw [heq]; rfl) hrun
      rwa [List.flatMap_cons, byteSize_append, ← Nat.add_assoc] at hplace
    exact (ih _ hplaces).bind fun rest hrest => List.forall_mem_append.mpr ⟨hfirst, hrest⟩

end Steps

/-! ### Tags of a text -/

/-- Whether a piece is a tag that is never closed. -/
def Piece.isOpen : Piece → Bool
  | .unclosedTag _ | .unclosedRawTag _ | .unclosedComment _ => true
  | _ => false

/-- A piece that is no run of text begins with opening braces. -/
theorem Piece.opening_prefix_text {piece : Piece} (h : piece.isRun = false) :
    opening <+: piece.text := by
  cases piece with
  | run => cases h
  | unclosedTag | unclosedRawTag | unclosedComment => exact List.prefix_append _ _
  | tag | rawTag | comment => exact (List.prefix_append _ _).trans (List.prefix_append _ _)

/-- A piece that is neither a run of text nor left open ends with closing braces. -/
theorem Piece.closing_suffix_text {piece : Piece} (hrun : piece.isRun = false)
    (hopen : piece.isOpen = false) : closing <:+ piece.text := by
  cases piece with
  | run => cases hrun
  | unclosedTag | unclosedRawTag | unclosedComment => cases hopen
  | tag contents => exact List.suffix_append _ _
  | rawTag contents => exact (List.suffix_cons _ closing).trans (List.suffix_append _ _)
  | comment contents trimmed =>
    have hend : closing <:+ commentEnd trimmed := by cases trimmed <;> decide
    exact hend.trans (List.suffix_append _ _)

/-- A tag that is never closed takes the rest of the text. -/
theorem rest_of_isOpen_cutTag {cs rest : List Char} {piece : Piece} (h : cutTag cs = (piece, rest))
    (hopen : piece.isOpen = true) : rest = [] := by
  unfold cutTag at h
  (repeat' split at h) <;> obtain ⟨rfl, rfl⟩ := Prod.mk.inj h <;> first | rfl | cases hopen

/-- Only the last piece of a text is a tag that is never closed. -/
theorem pairwise_isOpen_cut (cs : List Char) :
    (cut cs).Pairwise fun piece _ => piece.isOpen = false := by
  have hrun : ∀ {text : List Char} {piece : Piece}, piece ∈ runOf text → piece.isOpen = false := by
    intro text piece hm
    unfold runOf at hm
    split at hm
    · cases hm
    · rw [List.mem_singleton.mp hm]
      rfl
  cases hb : breakAt opening cs with
  | none =>
    rw [cut_of_none hb]
    exact List.pairwise_of_forall_mem_list fun piece hm _ _ => hrun hm
  | some found =>
    obtain ⟨before, rest⟩ := found
    obtain ⟨⟨piece, after⟩, hp⟩ : ∃ x, cutTag rest = x := ⟨_, rfl⟩
    obtain ⟨-, hlt⟩ := breakAt_opening_eq_some hb hp
    rw [cut_eq_cons hb hp]
    refine List.pairwise_append.mpr ⟨List.pairwise_of_forall_mem_list fun piece hm _ _ => hrun hm,
      List.pairwise_cons.mpr ⟨fun next hnext => ?_, pairwise_isOpen_cut after⟩,
      fun piece hm _ _ => hrun hm⟩
    by_contra hopen
    rw [rest_of_isOpen_cutTag hp (by simpa using hopen)] at hnext
    cases hnext
termination_by cs.length

/-- The span is the place of a tag of the text: it starts with two opening braces, and ends with two
closing ones or with the text. -/
def TagAt (source : List Char) (s : Span) : Prop :=
  ∃ before tag after, source = before ++ tag ++ after ∧ opening <+: tag ∧
    (after = [] ∨ closing <:+ tag) ∧
    s = Span.ofBytes (byteSize before) (byteSize (before ++ tag))

/-- The tokens of a text that are tags are at tags of the text, and so is a fault of them. -/
theorem Token.ofText_faultsAt (source : String) :
    FaultsAt (TagAt source.toList)
      (fun tokens => ∀ token ∈ tokens, ∀ s ∈ token.span?, TagAt source.toList s)
      (Token.ofText source) := by
  refine Token.ofPieces_faultsAt false fun earlier piece later hcut hrun => ?_
  have hsource := text_cut source.toList
  rw [hcut, List.flatMap_append, List.flatMap_cons, ← List.append_assoc] at hsource
  refine ⟨_, piece.text, later.flatMap Piece.text, hsource.symm, Piece.opening_prefix_text hrun, ?_,
    by rw [byteSize_append, Nat.zero_add]⟩
  cases later with
  | nil => exact .inl rfl
  | cons next later =>
    have hpairwise := pairwise_isOpen_cut source.toList
    rw [hcut] at hpairwise
    have hopen := (List.pairwise_cons.mp (List.pairwise_append.mp hpairwise).2.1).1 next
      List.mem_cons_self
    exact .inr (Piece.closing_suffix_text hrun hopen)

end Source

/-! ### Lines and columns -/

namespace Span

/-- The line that a text ends with: what stands behind its last line break, or all of it. -/
structure LastLine (cs line : List Char) : Prop where
  oneLine : '\n' ∉ line
  ends : cs = line ∨ ∃ earlier, cs = earlier ++ '\n' :: line

/-- Every text has a last line. -/
theorem exists_lastLine (cs : List Char) : ∃ line, LastLine cs line := by
  induction cs with
  | nil => exact ⟨[], List.not_mem_nil, .inl rfl⟩
  | cons c cs ih =>
    obtain ⟨line, hline, rfl | ⟨earlier, rfl⟩⟩ := ih
    · by_cases hc : c = '\n'
      · exact ⟨cs, hline, .inr ⟨[], by rw [hc]; rfl⟩⟩
      · exact ⟨c :: cs, List.not_mem_cons_of_ne_of_not_mem (Ne.symm hc) hline, .inl rfl⟩
    · exact ⟨line, hline, .inr ⟨c :: earlier, rfl⟩⟩

/-- The last line is what stands behind the last line break. -/
theorem LastLine.takeWhile_reverse {cs line : List Char} (h : LastLine cs line) :
    cs.reverse.takeWhile (· != '\n') = line.reverse := by
  have hall : ∀ c ∈ line.reverse, (c != '\n') = true := by
    intro c hc
    rw [bne_iff_ne]
    rintro rfl
    exact h.oneLine (List.mem_reverse.mp hc)
  rcases h.ends with rfl | ⟨earlier, rfl⟩
  · exact List.takeWhile_eq_self_iff.mpr hall
  · rw [List.reverse_append, List.reverse_cons, List.append_assoc,
      List.takeWhile_append_of_pos hall]
    simp

/-- A reversed text has as many bytes. -/
theorem byteSize_reverse (cs : List Char) : byteSize cs.reverse = byteSize cs := by
  induction cs with
  | nil => rfl
  | cons c cs ih =>
    rw [List.reverse_cons, byteSize_append, ih]
    simp only [byteSize]
    omega

/-- The line of a place is one more than the line breaks before it, and its column one more than the
bytes before it on its line. -/
theorem lineColumn_eq {s : Span} {source : String} {before rest line : List Char}
    (hsource : source.toList = before ++ rest) (hlo : s.lo.toNat = byteSize before)
    (hline : LastLine before line) :
    s.lineColumn source = (1 + before.count '\n', 1 + byteSize line) := by
  have hmin : min (byteSize before) (byteSize (before ++ rest)) = byteSize before := by
    rw [byteSize_append]
    omega
  have hle : byteSize line ≤ byteSize before := by
    rcases hline.ends with rfl | ⟨earlier, rfl⟩
    · exact Nat.le_refl _
    · rw [byteSize_append, byteSize]
      omega
  rw [lineColumn, hsource, hlo, hmin, bytesBefore?_append, Option.getD_some,
    hline.takeWhile_reverse, byteSize_reverse]
  have hcolumn : byteSize before + 1 - (byteSize before - byteSize line) = 1 + byteSize line := by
    omega
  rw [hcolumn, Nat.add_comm]

end Span

namespace Source

/-- A text that cannot be read is at fault at one of its tags. The tag starts with two opening
braces, and ends with two closing ones or with the text; the place of the fault is the place of the
tag, and the line and the column are those of its start. -/
theorem read_faultsAt {source : String} (options : Options) (isOperation : String → Bool)
    (hsize : byteSize source.toList < UInt32.size) :
    (∃ e, read source options isOperation = .ok e) ∨
      ∃ error before tag after line, read source options isOperation = .error error ∧
        error.source = source ∧ source.toList = before ++ tag ++ after ∧
        opening <+: tag ∧ (after = [] ∨ closing <:+ tag) ∧
        error.span.lo.toNat = byteSize before ∧
        error.span.hi.toNat = byteSize (before ++ tag) ∧
        error.span.lo < error.span.hi ∧ error.span.hi.toNat ≤ byteSize source.toList ∧
        Span.LastLine before line ∧
        error.lineColumn = (1 + before.count '\n', 1 + byteSize line) := by
  have hfaults : FaultsAt (TagAt source.toList) (fun _ => True)
      (Token.ofText source >>= Node.ofTokens) :=
    (Token.ofText_faultsAt source).bind fun tokens htokens => Node.ofTokens_faultsAt htokens
  unfold read
  cases hnodes : Token.ofText source >>= Node.ofTokens with
  | ok nodes => exact .inl ⟨_, rfl⟩
  | error fault =>
    rw [hnodes] at hfaults
    obtain ⟨before, tag, after, hsource, hopening, hend, hspan⟩ := hfaults
    obtain ⟨line, hline⟩ := Span.exists_lastLine before
    have hlt : byteSize before < byteSize (before ++ tag) := by
      have htag := (hopening.length_le).trans (length_le_byteSize tag)
      simp only [opening, List.length_cons, List.length_nil] at htag
      rw [byteSize_append]
      omega
    have hle : byteSize (before ++ tag) ≤ byteSize source.toList := by
      rw [hsource, byteSize_append (before ++ tag)]
      exact Nat.le_add_right _ _
    have hmax : max (byteSize (before ++ tag)) (byteSize before) = byteSize (before ++ tag) :=
      Nat.max_eq_left hlt.le
    have hlo : fault.span.lo.toNat = byteSize before := by
      rw [hspan, Span.lo_ofBytes (by omega)]
    have hhi : fault.span.hi.toNat = byteSize (before ++ tag) := by
      rw [hspan, Span.hi_ofBytes (by omega), hmax]
    have hplace : source.toList = before ++ (tag ++ after) := by rw [hsource, List.append_assoc]
    exact .inr ⟨_, before, tag, after, line, rfl, rfl, hsource, hopening, hend, hlo, hhi,
      by rw [UInt32.lt_iff_toNat_lt, hlo, hhi]; exact hlt, hhi ▸ hle, hline,
      Span.lineColumn_eq hplace hlo hline⟩

/-- A block on the second line that is not closed, after a character of two bytes. -/
theorem read_faultsAt_block :
    let source := "é\nx\x7b\x7b#if a\x7d\x7dy"
    let error : SyntaxError := ⟨⟨.unclosedBlock "if", ⟨4, 13⟩⟩, source⟩
    byteSize source.toList < UInt32.size ∧
      read source {} (fun _ => false) = .error error ∧
      ∃ before tag after line, source.toList = before ++ tag ++ after ∧ opening <+: tag ∧
        byteSize before = 4 ∧ byteSize (before ++ tag) = 13 ∧ Span.LastLine before line ∧
        error.lineColumn = (1 + before.count '\n', 1 + byteSize line) := by
  intro source error
  have hsize : byteSize source.toList < UInt32.size := by decide
  have hcut : cut source.toList = [.run ['é', '\n', 'x'], .tag ['#', 'i', 'f', ' ', 'a'],
      .run ['y']] := by decide
  have hread : read source {} (fun _ => false) = .error error := by
    rw [read, Token.ofText, hcut]
    rfl
  rcases read_faultsAt {} (fun _ => false) hsize with ⟨e, he⟩ |
    ⟨_, before, tag, after, line, herror, -, hsource, hopening, -, hlo, hhi, -, -, hline, hcolumn⟩
  · rw [hread] at he
    cases he
  · obtain rfl := Except.error.inj (hread.symm.trans herror)
    exact ⟨hsize, hread, before, tag, after, line, hsource, hopening, hlo.symm, hhi.symm, hline,
      hcolumn⟩

end Source

end Stencil
