import Stencil.Number.Shortest

/-!
# The text of a number

A number is written with the fewest digits that read back as it. Where its decimal point goes is
settled by a layout: a range of magnitudes is written positionally, with as many zeros as it takes,
and the rest with an exponent. Rendered output and data texts have one layout each.

## Main definitions

* `Number.text`: the text of a number in rendered output.
* `Number.dataText`: the text of a number in a data text, which has no infinities.
-/

namespace Stencil

/-- How the decimal of a number is laid out. -/
structure Layout where
  /-- Which of two equally near decimals is taken. -/
  tie : Tie
  /-- Whether a number whose first digit counts this power of ten is written positionally. -/
  positional : Int → Bool

namespace Layout

/-- Rendered output never has an exponent, and a half goes up. -/
def output : Layout := ⟨.up, fun _ => true⟩

/-- Data texts have an exponent below `1e-5` and from `1e16` on, and a half goes to the even
neighbour. -/
def data : Layout := ⟨.even, fun leading => -5 ≤ leading && leading ≤ 15⟩

/-- As many zeros. -/
def zeros (n : Nat) : List Char :=
  List.replicate n '0'

/-- Digits with the decimal point after the first `point` of them, filled up with zeros. -/
def placed (digits : List Char) (point : Int) : List Char :=
  if point ≤ 0 then ['0', '.'] ++ zeros (-point).toNat ++ digits
  else if digits.length ≤ point.toNat then digits ++ zeros (point.toNat - digits.length)
  else digits.take point.toNat ++ ['.'] ++ digits.drop point.toNat

/-- Digits with the decimal point after the first one and the power of ten that it counts. -/
def scientific (digits : List Char) (leading : Int) : List Char :=
  let fraction := match digits.drop 1 with
    | [] => []
    | rest => '.' :: rest
  digits.take 1 ++ fraction ++ ['e', if leading < 0 then '-' else '+'] ++
    Nat.toDigits 10 leading.natAbs

/-- The text of a positive decimal. -/
def write (layout : Layout) (d : Decimal) : List Char :=
  let all := Nat.toDigits 10 d.digits
  let digits := (all.reverse.dropWhile (· == '0')).reverse
  let leading := all.length + d.exponent - 1
  if layout.positional leading then placed digits (leading + 1) else scientific digits leading

/-- The text of `mantissa · 2 ^ exponent`, with a sign when it is negative. -/
def writeBinary (layout : Layout) (negative : Bool) (mantissa : Nat) (exponent : Int) : String :=
  let text := layout.write (Decimal.shortest layout.tie mantissa exponent)
  String.ofList (if negative then '-' :: text else text)

end Layout

namespace Number

/-- The decimal digits of an integer, with a sign when it is negative. -/
def integerText (n : Int) : String :=
  let digits := Nat.toDigits 10 n.natAbs
  String.ofList (if n < 0 then '-' :: digits else digits)

/-- The text of a number in rendered output. Integers below `10 ^ 21` have all their digits; beyond
that, and for fractions, the fewest digits that read back are followed by zeros. Both zeros are
`0`. -/
def text (x : Float) : String :=
  match Exact.ofFloat x with
  | .nan => "NaN"
  | .infinite negative => if negative then "-Infinity" else "Infinity"
  | .finite negative mantissa exponent =>
    match (Exact.finite negative mantissa exponent).integer? with
    | some n =>
      if n.natAbs < tenPow 21 then integerText n
      else Layout.output.writeBinary negative mantissa exponent
    | none => Layout.output.writeBinary negative mantissa exponent

/-- The text of a number in a data text: an integer when a word holds it, `null` when it is not
finite. -/
def dataText (x : Float) : String :=
  match toWord? x with
  | some n => integerText n.toInt
  | none =>
    match Exact.ofFloat x with
    | .finite negative mantissa exponent => Layout.data.writeBinary negative mantissa exponent
    | _ => "null"

end Number

end Stencil
