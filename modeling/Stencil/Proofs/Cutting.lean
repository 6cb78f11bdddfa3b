import Stencil.Source.Piece

/-!
# Cutting texts side by side

A tag is found by searching the whole rest of the text for the braces that close it. What has been
found is not changed by text after it, so that a text is cut into the same pieces whatever follows,
but for the last run of text, which goes on. Three things have to be asked for: every tag of the
text is closed; no comment ends with a trim mark, since such an end is only taken when there is no
other one in the rest of the text; and the text does not end in a brace that might open a tag.

## Main results

* `cut_eq_cons`: the pieces of a text one after the other, without a budget.
* `cut_append`: the pieces of two texts side by side.
-/

namespace Stencil

namespace Text

/-- A word that starts a text starts every longer text. -/
theorem after?_append {word cs rest : List Char} (h : after? word cs = some rest)
    (more : List Char) : after? word (cs ++ more) = some (rest ++ more) := by
  rw [after?_eq_some] at h ⊢
  rw [h, List.append_assoc]

/-- A word that a text is long enough for starts it as much as it starts a longer text. -/
theorem after?_append_eq_none {word cs : List Char} (h : after? word cs = none)
    (hl : word.length ≤ cs.length) (more : List Char) : after? word (cs ++ more) = none := by
  rw [Option.eq_none_iff_forall_ne_some] at h ⊢
  intro rest hr
  rw [after?_eq_some, List.append_eq_append_iff] at hr
  obtain ⟨as, rfl, -⟩ | ⟨as, rfl, -⟩ := hr
  · rw [List.length_append] at hl
    obtain rfl : as = [] := List.eq_nil_of_length_eq_zero (by omega)
    exact h [] (after?_eq_some.mpr (by simp))
  · exact h as (after?_eq_some.mpr rfl)

/-- A word is first found where it was, whatever follows. -/
theorem breakAt_append {word cs before rest : List Char} (h : breakAt word cs = some (before, rest))
    (more : List Char) : breakAt word (cs ++ more) = some (before, rest ++ more) := by
  induction cs generalizing before with
  | nil =>
    have hw := breakAt_eq_some h
    obtain ⟨rfl, rfl, rfl⟩ : before = [] ∧ word = [] ∧ rest = [] := by simpa using hw.symm
    cases more <;> rfl
  | cons c cs ih =>
    have hl : word.length ≤ (c :: cs).length := by
      rw [breakAt_eq_some h]
      simp only [List.length_append]
      omega
    rw [breakAt] at h
    cases ha : after? word (c :: cs) with
    | some r =>
      rw [ha] at h
      obtain ⟨rfl, rfl⟩ : [] = before ∧ r = rest := by simpa using h
      rw [List.cons_append, breakAt, ← List.cons_append, after?_append ha]
    | none =>
      rw [ha] at h
      obtain ⟨⟨b, r⟩, hb, h⟩ := Option.map_eq_some_iff.mp h
      obtain ⟨rfl, rfl⟩ := Prod.mk.inj h
      rw [List.cons_append, breakAt, ← List.cons_append, after?_append_eq_none ha hl, ih hb]
      rfl

end Text

namespace Source

/-- The closing braces are first found where they were, whatever follows. -/
theorem breakAtClosing_append {quote : Option Char} {cs before rest : List Char}
    (h : breakAtClosing quote cs = some (before, rest)) (more : List Char) :
    breakAtClosing quote (cs ++ more) = some (before, rest ++ more) := by
  induction cs generalizing quote before with
  | nil => simp [breakAtClosing] at h
  | cons c cs ih =>
    have inside : ∀ {q : Option Char},
        (breakAtClosing q cs).map (fun (x : List Char × List Char) => (c :: x.1, x.2)) =
          some (before, rest) →
        (breakAtClosing q (cs ++ more)).map (fun (x : List Char × List Char) => (c :: x.1, x.2)) =
          some (before, rest ++ more) := by
      intro q hq
      obtain ⟨⟨b, r⟩, hb, h⟩ := Option.map_eq_some_iff.mp hq
      obtain ⟨rfl, rfl⟩ := Prod.mk.inj h
      rw [ih hb]
      rfl
    rw [List.cons_append]
    unfold breakAtClosing at h ⊢
    cases quote with
    | some q => exact inside h
    | none =>
      dsimp only at h ⊢
      split at h
      · next hc =>
        rw [if_pos hc]
        exact inside h
      · next hc =>
        rw [if_neg hc]
        split at h
        · obtain ⟨rfl, rfl⟩ := Prod.mk.inj (Option.some.inj h)
          rfl
        · next hne =>
          split
          · next rest' hm =>
            cases cs with
            | nil => simp [breakAtClosing] at h
            | cons d ds => exact (hne ds rfl (congrArg (· :: ds) (List.cons.inj hm).1)).elim
          · exact inside h

/-! ### Tags -/

/-- A tag that is closed, and no comment that ends with a trim mark. -/
def Piece.Stays : Piece → Prop
  | .run _ | .tag _ | .rawTag _ | .comment _ false => True
  | .comment _ true | .unclosedTag _ | .unclosedRawTag _ | .unclosedComment _ => False

/-- Whether a text starts with a word is settled by a character that the word does not have. -/
theorem isPrefixOf_append {word cs : List Char} {c : Char} (hc : c ∈ cs) (hw : c ∉ word)
    (more : List Char) : word.isPrefixOf (cs ++ more) = word.isPrefixOf cs := by
  induction word generalizing cs with
  | nil => rfl
  | cons w word ih =>
    obtain ⟨hcw, hw⟩ := not_or.mp (mt List.mem_cons.mpr hw)
    obtain _ | ⟨d, cs⟩ := cs
    · simp at hc
    · rw [List.cons_append, List.isPrefixOf, List.isPrefixOf]
      rcases List.mem_cons.mp hc with rfl | hc
      · rw [beq_false_of_ne (Ne.symm hcw), Bool.false_and, Bool.false_and]
      · rw [ih hc hw]

/-- Whether a comment starts is seen before the first closing brace. -/
theorem startsComment_append {cs : List Char} (h : '\x7d' ∈ cs) (more : List Char) :
    startsComment (cs ++ more) = startsComment cs := by
  unfold startsComment
  obtain _ | ⟨c, cs⟩ := cs
  · simp at h
  · rw [List.cons_append]
    by_cases hc : c = '~'
    · subst hc
      exact isPrefixOf_append (by simpa using h) (by decide) more
    · split
      · next hm => exact absurd (List.cons.inj hm).1 hc
      · split
        · next hm => exact absurd (List.cons.inj hm).1 hc
        · exact isPrefixOf_append h (by decide) more

/-- What a tag is, and where it ends, does not change by what follows, unless it is open. -/
theorem cutTag_append {cs rest : List Char} {piece : Piece} (h : cutTag cs = (piece, rest))
    (hs : piece.Stays) (more : List Char) : cutTag (cs ++ more) = (piece, rest ++ more) := by
  unfold cutTag at h
  split at h
  · next raw =>
    split at h
    · next hb =>
      obtain ⟨rfl, rfl⟩ := Prod.mk.inj h
      rw [List.cons_append, cutTag, Text.breakAt_append hb]
    · obtain ⟨rfl, -⟩ := Prod.mk.inj h
      exact hs.elim
  · next hraw =>
    have noRaw : ∀ raw, cs ++ more = '\x7b' :: raw → '\x7d' ∉ cs := by
      intro raw hm
      obtain _ | ⟨c, cs⟩ := cs
      · simp
      · obtain ⟨rfl, -⟩ := List.cons.inj hm
        exact (hraw cs rfl).elim
    split at h
    · next hstart =>
      split at h
      · next hb =>
        obtain ⟨rfl, rfl⟩ := Prod.mk.inj h
        have hmem : '\x7d' ∈ cs := by simp [Text.breakAt_eq_some hb, commentEnd]
        unfold cutTag
        split
        · next hm => exact (noRaw _ hm hmem).elim
        · rw [startsComment_append hmem, if_pos hstart, Text.breakAt_append hb]
      · split at h <;>
        · obtain ⟨rfl, -⟩ := Prod.mk.inj h
          exact hs.elim
    · next hstart =>
      split at h
      · next hb =>
        obtain ⟨rfl, rfl⟩ := Prod.mk.inj h
        have hmem : '\x7d' ∈ cs := by simp [breakAtClosing_eq_some hb, closing]
        unfold cutTag
        split
        · next hm => exact (noRaw _ hm hmem).elim
        · rw [startsComment_append hmem, if_neg hstart, breakAtClosing_append hb]
      · obtain ⟨rfl, -⟩ := Prod.mk.inj h
        exact hs.elim

/-! ### Pieces -/

/-- The text up to the first tag, this tag and what follows are the text. -/
theorem breakAt_opening_eq_some {cs before rest after : List Char} {piece : Piece}
    (h : Text.breakAt opening cs = some (before, rest)) (hp : cutTag rest = (piece, after)) :
    cs = before ++ piece.text ++ after ∧ after.length < cs.length := by
  have ht := text_cutTag rest
  have hl := length_cutTag_lt rest
  have hcs := Text.breakAt_eq_some h
  simp only [hp] at ht hl
  rw [List.append_assoc, ← ht, ← List.append_assoc] at hcs
  refine ⟨hcs, ?_⟩
  rw [Text.breakAt_eq_some h]
  simp only [List.length_append, opening, List.length_cons, List.length_nil]
  omega

/-- More than enough budget changes nothing. -/
theorem cutWithin_eq {budget : Nat} {cs : List Char} (h : cs.length < budget) :
    cutWithin budget cs = cut cs := by
  suffices ∀ {m n : Nat} {cs : List Char}, cs.length < m → cs.length < n →
      cutWithin m cs = cutWithin n cs from this h (Nat.lt_succ_self _)
  intro m
  induction m with
  | zero => intro n cs hm; omega
  | succ m ih =>
    intro n cs hm hn
    obtain ⟨n, rfl⟩ : ∃ k, n = k + 1 := ⟨n - 1, by omega⟩
    unfold cutWithin
    split
    · rfl
    · next before rest hb =>
      obtain ⟨-, hl⟩ := breakAt_opening_eq_some hb (cutTag rest).eta.symm
      dsimp only
      rw [ih (n := n) (by omega) (by omega)]

/-- A text without tags is one run. -/
theorem cut_of_none {cs : List Char} (h : Text.breakAt opening cs = none) : cut cs = runOf cs := by
  rw [cut, cutWithin, h]

/-- The pieces of a text up to its first tag, and the pieces after it. -/
theorem cut_eq_cons {cs before rest after : List Char} {piece : Piece}
    (h : Text.breakAt opening cs = some (before, rest)) (hp : cutTag rest = (piece, after)) :
    cut cs = runOf before ++ piece :: cut after := by
  rw [cut, cutWithin, h]
  simp only [hp, cutWithin_eq (breakAt_opening_eq_some h hp).2]

/-- Whether a piece is text outside of tags. -/
def Piece.isRun : Piece → Bool
  | .run _ => true
  | _ => false

/-- What is cut as a tag is no run of text. -/
theorem isRun_cutTag (cs : List Char) : (cutTag cs).1.isRun = false := by
  unfold cutTag
  (repeat' split) <;> rfl

/-- A run of text has characters. -/
theorem ne_nil_of_run_mem_cutWithin {budget : Nat} {cs text : List Char}
    (h : .run text ∈ cutWithin budget cs) : text ≠ [] := by
  have hrun : ∀ {cs : List Char}, .run text ∈ runOf cs → text ≠ [] := by
    intro cs hm
    obtain _ | ⟨c, cs⟩ := cs
    · simp [runOf] at hm
    · obtain rfl : text = c :: cs := by simpa [runOf] using hm
      simp
  induction budget generalizing cs with
  | zero => simp [cutWithin] at h
  | succ budget ih =>
    unfold cutWithin at h
    split at h
    · exact hrun h
    · next before rest _ =>
      simp only [List.mem_append, List.mem_cons] at h
      rcases h with h | h | h
      · exact hrun h
      · have hp := isRun_cutTag rest
        rw [← h] at hp
        cases hp
      · exact ih h

/-- Pieces side by side. A run of text at the end goes on with the one that follows. -/
def joinRuns : List Piece → List Piece → List Piece
  | [], pieces => pieces
  | [.run x], .run y :: pieces => .run (x ++ y) :: pieces
  | piece :: pieces, others => piece :: joinRuns pieces others

/-- Only a run of text at the end goes on. -/
theorem joinRuns_cons {piece : Piece} (h : piece.isRun = false) (pieces others : List Piece) :
    joinRuns (piece :: pieces) others = piece :: joinRuns pieces others := by
  cases piece with
  | run x => cases h
  | _ => rfl

/-- A tag does not go on with what stands before it. -/
theorem joinRuns_of_tag {piece : Piece} (h : piece.isRun = false) (pieces others : List Piece) :
    joinRuns pieces (piece :: others) = pieces ++ piece :: others := by
  generalize hrest : piece :: others = rest
  fun_induction joinRuns pieces rest with
  | case1 => rfl
  | case2 x y rest =>
    obtain ⟨rfl, -⟩ := List.cons.inj hrest
    cases h
  | case3 piece' pieces rest hne ih => rw [ih hrest, List.cons_append]

/-- Whatever stands before a tag stays as it is. -/
theorem joinRuns_runOf_append {piece : Piece} (h : piece.isRun = false) (text : List Char)
    (pieces others : List Piece) :
    joinRuns (runOf text ++ piece :: pieces) others =
      runOf text ++ piece :: joinRuns pieces others := by
  rw [← joinRuns_cons h]
  cases text <;> rfl

/-- Text goes on with the text up to the next tag. -/
theorem joinRuns_runOf (x y : List Char) {pieces : List Piece}
    (h : ∀ piece ∈ pieces.head?, piece.isRun = false) :
    joinRuns (runOf x) (runOf y ++ pieces) = runOf (x ++ y) ++ pieces := by
  obtain _ | ⟨c, x⟩ := x
  · rfl
  · obtain _ | ⟨d, y⟩ := y
    · obtain _ | ⟨piece, pieces⟩ := pieces
      · simp [runOf, joinRuns]
      · have hp := h piece rfl
        cases piece with
        | run x => cases hp
        | _ => simp [runOf, joinRuns]
    · rfl

/-- A text without a tag that does not end in a brace has no part in a tag. -/
theorem breakAt_opening_append {a : List Char} (h : Text.breakAt opening a = none)
    (hlast : a.getLast? ≠ some '\x7b') (b : List Char) :
    Text.breakAt opening (a ++ b) =
      (Text.breakAt opening b).map fun (before, rest) => (a ++ before, rest) := by
  induction a with
  | nil => simp
  | cons c a ih =>
    rw [Text.breakAt] at h
    cases ha : Text.after? opening (c :: a) with
    | some rest => simp [ha] at h
    | none =>
      rw [ha] at h
      have hn : Text.after? opening (c :: (a ++ b)) = none := by
        cases a with
        | nil =>
          have hc : '\x7b' ≠ c := fun hc => hlast (congrArg some hc.symm)
          rw [opening, Text.after?, if_neg hc]
        | cons d a => exact Text.after?_append_eq_none ha (by simp [opening]) b
      rw [List.cons_append, Text.breakAt, hn, ih (Option.map_eq_none_iff.mp h) ?_]
      · simp [Function.comp_def]
      · cases a with
        | nil => simp
        | cons d a => simpa [List.getLast?_cons_cons] using hlast

/-- Two texts side by side are cut into the pieces of the one and those of the other, where the
tags of the first one are closed and it does not end in a brace. -/
theorem cut_append {a : List Char} (hs : ∀ piece ∈ cut a, piece.Stays)
    (hlast : a.getLast? ≠ some '\x7b') (b : List Char) :
    cut (a ++ b) = joinRuns (cut a) (cut b) := by
  cases ha : Text.breakAt opening a with
  | none =>
    rw [cut_of_none ha]
    have hab := breakAt_opening_append ha hlast b
    cases hb : Text.breakAt opening b with
    | none =>
      rw [hb] at hab
      have hruns : joinRuns (runOf a) (runOf b ++ []) = runOf (a ++ b) ++ [] :=
        joinRuns_runOf a b (by simp)
      rw [cut_of_none hab, cut_of_none hb]
      simpa using hruns.symm
    | some found =>
      obtain ⟨before, rest⟩ := found
      rw [hb] at hab
      obtain ⟨⟨piece, after⟩, hp⟩ : ∃ x, cutTag rest = x := ⟨_, rfl⟩
      have hrun : piece.isRun = false := by simpa [hp] using isRun_cutTag rest
      rw [cut_eq_cons hab hp, cut_eq_cons hb hp, joinRuns_runOf a before (by simpa using hrun)]
  | some found =>
    obtain ⟨before, rest⟩ := found
    obtain ⟨⟨piece, after⟩, hp⟩ : ∃ x, cutTag rest = x := ⟨_, rfl⟩
    have hrun : piece.isRun = false := by simpa [hp] using isRun_cutTag rest
    rw [cut_eq_cons ha hp] at hs
    have hstay : piece.Stays := hs piece (by simp)
    obtain ⟨htext, hl⟩ := breakAt_opening_eq_some ha hp
    have hafter : after.getLast? ≠ some '\x7b' := by
      rcases List.eq_nil_or_concat after with rfl | ⟨cs, c, rfl⟩
      · simp
      · rw [htext] at hlast
        simpa using hlast
    rw [cut_eq_cons (Text.breakAt_append ha b) (cutTag_append hp hstay b), cut_eq_cons ha hp,
      joinRuns_runOf_append hrun,
      cut_append (a := after) (fun piece hm => hs piece (by simp [hm])) hafter b]
termination_by a.length

end Source

end Stencil
