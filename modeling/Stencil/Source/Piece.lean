import Stencil.Text.Split

/-!
# Pieces of a template text

A template text is cut into runs of text and tags. A tag starts with two braces and ends with the
first two closing braces outside of quotes; a tag with three braces ends with three, and a comment
that starts with two dashes ends with two dashes and braces. Nothing is left out: the pieces side by
side are the text again.

A tag that is never closed takes the rest of the text, and is the last piece.

## Main results

* `text_cut`: the pieces side by side are the text.
-/

namespace Stencil.Source

/-- A piece of a template text. -/
inductive Piece where
  /-- Text outside of tags. -/
  | run (text : List Char)
  /-- What stands between two pairs of braces. -/
  | tag (contents : List Char)
  /-- What stands between three and three braces. -/
  | rawTag (contents : List Char)
  /-- A comment between dashes: what stands between the opening braces and the dashes that close
  it, and whether a trim mark follows these. -/
  | comment (contents : List Char) (trimmed : Bool)
  /-- Two opening braces and the rest of the text, in which they are not closed. -/
  | unclosedTag (rest : List Char)
  /-- Three opening braces and the rest of the text, in which they are not closed. -/
  | unclosedRawTag (rest : List Char)
  /-- The start of a comment and the rest of the text, in which it is not closed. -/
  | unclosedComment (rest : List Char)
  deriving DecidableEq, Repr

/-- Two opening braces. -/
def opening : List Char := ['\x7b', '\x7b']

/-- Two closing braces. -/
def closing : List Char := ['\x7d', '\x7d']

/-- The dashes and braces that close a comment. -/
def commentEnd (trimmed : Bool) : List Char :=
  if trimmed then ['-', '-', '~', '\x7d', '\x7d'] else ['-', '-', '\x7d', '\x7d']

/-- The piece as it stands in the text. -/
def Piece.text : Piece → List Char
  | .run text => text
  | .tag contents => opening ++ contents ++ closing
  | .rawTag contents => opening ++ '\x7b' :: contents ++ '\x7d' :: closing
  | .comment contents trimmed => opening ++ contents ++ commentEnd trimmed
  | .unclosedTag rest => opening ++ rest
  | .unclosedRawTag rest => opening ++ '\x7b' :: rest
  | .unclosedComment rest => opening ++ rest

/-- What stands before and after the first two closing braces outside of quotes. The quote that is
open, if any, is `quote`. -/
def breakAtClosing (quote : Option Char) : List Char → Option (List Char × List Char)
  | [] => none
  | c :: cs =>
    let inside (quote : Option Char) :=
      (breakAtClosing quote cs).map fun (before, rest) => (c :: before, rest)
    match quote with
    | some q => inside (if c = q then none else quote)
    | none =>
      if c = '"' ∨ c = '\'' then inside (some c)
      else match c, cs with
        | '\x7d', '\x7d' :: rest => some ([], rest)
        | _, _ => inside none

/-- Whether the text after two opening braces starts a comment between dashes. -/
def startsComment (cs : List Char) : Bool :=
  let cs := match cs with
    | '~' :: rest => rest
    | cs => cs
  ['!', '-', '-'].isPrefixOf cs

/-- The tag whose contents start after two opening braces, and what follows it. A comment ends at
the first dashes and braces without a trim mark in the whole rest of the text; only when there are
none does it end at the first ones with a trim mark. -/
def cutTag (cs : List Char) : Piece × List Char :=
  match cs with
  | '\x7b' :: raw =>
    match Text.breakAt ('\x7d' :: closing) raw with
    | some (contents, rest) => (.rawTag contents, rest)
    | none => (.unclosedRawTag raw, [])
  | cs =>
    if startsComment cs then
      match Text.breakAt (commentEnd false) cs with
      | some (contents, rest) => (.comment contents false, rest)
      | none =>
        match Text.breakAt (commentEnd true) cs with
        | some (contents, rest) => (.comment contents true, rest)
        | none => (.unclosedComment cs, [])
    else
      match breakAtClosing none cs with
      | some (contents, rest) => (.tag contents, rest)
      | none => (.unclosedTag cs, [])

/-- The run of text, unless it is empty. -/
def runOf (text : List Char) : List Piece :=
  if text.isEmpty then [] else [.run text]

/-- The pieces of a text, as many as the budget allows for. Every tag uses up its braces. -/
def cutWithin : Nat → List Char → List Piece
  | 0, _ => []
  | budget + 1, cs =>
    match Text.breakAt opening cs with
    | none => runOf cs
    | some (before, rest) =>
      let (piece, rest) := cutTag rest
      runOf before ++ piece :: cutWithin budget rest

/-- The pieces of a text. -/
def cut (cs : List Char) : List Piece :=
  cutWithin (cs.length + 1) cs

/-! ### Nothing is lost -/

/-- Contents up to the closing braces, and what follows them. -/
theorem breakAtClosing_eq_some {quote : Option Char} {cs before rest : List Char}
    (h : breakAtClosing quote cs = some (before, rest)) : cs = before ++ closing ++ rest := by
  induction cs generalizing quote before with
  | nil => simp [breakAtClosing] at h
  | cons c cs ih =>
    have inside : ∀ {q : Option Char},
        (breakAtClosing q cs).map (fun (x : List Char × List Char) => (c :: x.1, x.2)) =
          some (before, rest) → c :: cs = before ++ closing ++ rest := by
      intro q hq
      simp only [Option.map_eq_some_iff, Prod.mk.injEq] at hq
      obtain ⟨⟨b, r⟩, hb, rfl, rfl⟩ := hq
      simp [ih hb]
    unfold breakAtClosing at h
    split at h
    · exact inside h
    · split at h
      · exact inside h
      · split at h
        · simp only [Option.some.injEq, Prod.mk.injEq] at h
          obtain ⟨rfl, rfl⟩ := h
          rfl
        · exact inside h

/-- A tag and what follows it are the text after the opening braces. -/
theorem text_cutTag (cs : List Char) :
    (cutTag cs).1.text ++ (cutTag cs).2 = opening ++ cs := by
  unfold cutTag
  split
  · split
    · next h => simp [Piece.text, Text.breakAt_eq_some h]
    · simp [Piece.text]
  · split
    · split
      · next h => simp [Piece.text, Text.breakAt_eq_some h]
      · split
        · next h => simp [Piece.text, Text.breakAt_eq_some h]
        · simp [Piece.text]
    · split
      · next h => simp [Piece.text, breakAtClosing_eq_some h]
      · simp [Piece.text]

/-- The text of a run is the run. -/
theorem text_runOf (cs : List Char) : (runOf cs).flatMap Piece.text = cs := by
  cases cs <;> simp [runOf, Piece.text]

/-- Cutting a tag leaves no more than there was. -/
theorem length_cutTag_lt (cs : List Char) : (cutTag cs).2.length ≤ cs.length := by
  have := congrArg List.length (text_cutTag cs)
  have h : 2 ≤ (cutTag cs).1.text.length := by
    unfold cutTag
    (repeat' split) <;> simp [Piece.text, opening]
  simp only [List.length_append, opening, List.length_cons, List.length_nil] at this
  omega

/-- The pieces of a text make up the text. -/
theorem text_cutWithin {budget : Nat} {cs : List Char} (h : cs.length < budget) :
    (cutWithin budget cs).flatMap Piece.text = cs := by
  induction budget generalizing cs with
  | zero => omega
  | succ budget ih =>
    unfold cutWithin
    split
    · exact text_runOf cs
    · next before rest hb =>
      have hcs := Text.breakAt_eq_some hb
      have hlen := length_cutTag_lt rest
      have hr : (cutTag rest).2.length < budget := by
        have := congrArg List.length hcs
        simp only [List.length_append, opening, List.length_cons, List.length_nil] at this
        omega
      simp only [List.flatMap_append, List.flatMap_cons, text_runOf, ih hr]
      rw [text_cutTag, hcs]
      simp

/-- The pieces side by side are the text. -/
theorem text_cut (cs : List Char) : (cut cs).flatMap Piece.text = cs :=
  text_cutWithin (Nat.lt_succ_self _)

end Stencil.Source
