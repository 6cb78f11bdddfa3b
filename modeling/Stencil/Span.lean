import Stencil.Text.Split

/-!
# Places in a text

A span is a range of bytes of a template text. Its two ends are kept in words of thirty-two bits,
and its end is never before its start. A place is shown as a line and a column, both counted from
one; columns count bytes.

## Main results

* `lo_ofBytes`, `hi_ofBytes`: the ends of a span of a text shorter than `2 ^ 32` bytes.
* `slice?_append`: the part of a text between two places is what stands there.
-/

namespace Stencil

/-- A range of bytes of a template text. -/
structure Span where
  lo : UInt32
  hi : UInt32
  deriving DecidableEq, Repr, Inhabited

namespace Span

/-- The span between two byte offsets. -/
def ofBytes (lo hi : Nat) : Span :=
  ⟨lo.toUInt32, (max hi lo).toUInt32⟩

/-- The span that points nowhere. -/
def none : Span := ⟨0, 0⟩

/-- The number of bytes in the span. -/
def length (s : Span) : Nat :=
  (s.hi - s.lo).toNat

/-- Whether the span holds no bytes. -/
def isEmpty (s : Span) : Bool :=
  s.hi == s.lo

/-- The characters that lie in the first `n` bytes, when the cut falls between two characters. -/
def bytesBefore? : Nat → List Char → Option (List Char)
  | 0, _ => some []
  | _, [] => Option.none
  | n, c :: cs =>
    if c.utf8Size ≤ n then (bytesBefore? (n - c.utf8Size) cs).map (c :: ·) else Option.none

/-- The characters that lie behind the first `n` bytes, when the cut falls between two
characters. -/
def bytesAfter? : Nat → List Char → Option (List Char)
  | 0, cs => some cs
  | _, [] => Option.none
  | n, c :: cs => if c.utf8Size ≤ n then bytesAfter? (n - c.utf8Size) cs else Option.none

/-- The characters between two places, both counted in bytes, when both cuts fall between two
characters. -/
def slice? (lo hi : Nat) (cs : List Char) : Option (List Char) :=
  if lo ≤ hi then (bytesAfter? lo cs).bind (bytesBefore? (hi - lo)) else Option.none

/-- The line and the column of the start of the span. A start past the end of the text is taken to
be its end, and one inside a character has the whole text before it. -/
def lineColumn (s : Span) (source : String) : Nat × Nat :=
  let cs := source.toList
  let lo := min s.lo.toNat (Text.byteSize cs)
  let before := (bytesBefore? lo cs).getD cs
  let line := before.count '\n' + 1
  let lastLine := (before.reverse.takeWhile (· != '\n'))
  let start := Text.byteSize before - Text.byteSize lastLine
  (line, lo + 1 - start)

/-- The span as it is shown. -/
def text (s : Span) : String :=
  "Span(" ++ toString s.lo.toNat ++ "-" ++ toString s.hi.toNat ++ ")"

/-! ### Ends -/

/-- The lower end of a span of bytes. -/
theorem lo_ofBytes {lo hi : Nat} (h : lo < UInt32.size) : (ofBytes lo hi).lo.toNat = lo := by
  simpa [ofBytes] using Nat.mod_eq_of_lt h

/-- The upper end of a span of bytes. -/
theorem hi_ofBytes {lo hi : Nat} (h : max hi lo < UInt32.size) :
    (ofBytes lo hi).hi.toNat = max hi lo := by
  simpa [ofBytes] using Nat.mod_eq_of_lt h

/-! ### Places between characters -/

/-- The characters before a place between two characters. -/
theorem bytesBefore?_append (before rest : List Char) :
    bytesBefore? (Text.byteSize before) (before ++ rest) = some before := by
  induction before with
  | nil => cases rest <;> rfl
  | cons c before ih =>
    have hpos : Text.byteSize (c :: before) ≠ 0 := Nat.ne_of_gt (Nat.add_pos_left c.utf8Size_pos _)
    have hle : c.utf8Size ≤ Text.byteSize (c :: before) := Nat.le_add_right _ _
    have hsub : Text.byteSize (c :: before) - c.utf8Size = Text.byteSize before :=
      Nat.add_sub_cancel_left _ _
    rw [List.cons_append, bytesBefore?, if_pos hle, hsub, ih]
    · rfl
    · exact hpos

/-- The characters behind a place between two characters. -/
theorem bytesAfter?_append (before rest : List Char) :
    bytesAfter? (Text.byteSize before) (before ++ rest) = some rest := by
  induction before with
  | nil => cases rest <;> rfl
  | cons c before ih =>
    have hpos : Text.byteSize (c :: before) ≠ 0 := Nat.ne_of_gt (Nat.add_pos_left c.utf8Size_pos _)
    have hle : c.utf8Size ≤ Text.byteSize (c :: before) := Nat.le_add_right _ _
    have hsub : Text.byteSize (c :: before) - c.utf8Size = Text.byteSize before :=
      Nat.add_sub_cancel_left _ _
    rw [List.cons_append, bytesAfter?, if_pos hle, hsub, ih]
    exact hpos

/-- The part of a text between two places is what stands there. -/
theorem slice?_append (before part rest : List Char) :
    slice? (Text.byteSize before) (Text.byteSize (before ++ part)) (before ++ part ++ rest) =
      some part := by
  have hsize := Text.byteSize_append before part
  have hlength : Text.byteSize (before ++ part) - Text.byteSize before = Text.byteSize part := by
    rw [hsize, Nat.add_sub_cancel_left]
  rw [slice?, if_pos (by rw [hsize]; exact Nat.le_add_right _ _), List.append_assoc,
    bytesAfter?_append, Option.bind_some, hlength, bytesBefore?_append]

end Span

end Stencil
