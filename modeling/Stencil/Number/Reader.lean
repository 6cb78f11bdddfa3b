import Stencil.Number.Shortest

/-!
# Reading numbers from text

Texts are coerced to numbers by one grammar: a sign, then digits with at most one point among or
beside them and an exponent, or one of the words for the infinities and for no number. The whole
text has to be used. The value is the nearest binary64 number.
-/

namespace Stencil

/-- The digits that a text starts with, and the rest. -/
def digitRun (cs : List Char) : List Char × List Char :=
  (cs.takeWhile Char.isDigit, cs.dropWhile Char.isDigit)

/-- The number that a run of digits spells. -/
def digitsValue (ds : List Char) : Nat :=
  ds.foldl (fun n d => 10 * n + (d.toNat - '0'.toNat)) 0

/-- Splits off a sign: whether it is a minus, and the rest. -/
def signOf : List Char → Bool × List Char
  | '-' :: rest => (true, rest)
  | '+' :: rest => (false, rest)
  | cs => (false, cs)

namespace Decimal

/-- The nearest binary64 number of a decimal. Exponents far outside the range of binary64 settle
the answer by themselves. -/
def toFloat (d : Decimal) : Float :=
  let leading := d.exponent + digitCount d.digits
  if d.digits = 0 ∨ leading < -400 then 0
  else if 400 < leading then Exact.toFloat (.infinite false)
  else Float.ofScientific d.digits (d.exponent < 0) d.exponent.natAbs

/-- The power of ten after an `e`, which has at least one digit. -/
def exponent? : List Char → Option Int
  | [] => some 0
  | c :: cs =>
    if c = 'e' ∨ c = 'E' then
      let (negative, ds) := signOf cs
      if ds.isEmpty || !ds.all Char.isDigit then none
      else some (Exact.signed negative (digitsValue ds))
    else none

/-- Reads digits with a point and an exponent. A point needs a digit on one of its sides. -/
def ofText? (cs : List Char) : Option Decimal :=
  let (whole, rest) := digitRun cs
  let (fraction, rest) := match rest with
    | '.' :: rest => digitRun rest
    | rest => ([], rest)
  if whole.isEmpty && fraction.isEmpty then none
  else (exponent? rest).map fun e => ⟨digitsValue (whole ++ fraction), e - fraction.length⟩

end Decimal

namespace Number

/-- The words for the numbers that have no digits, in any mixture of cases. -/
def word? (cs : List Char) : Option Float :=
  let word := cs.map Char.toLower
  if word = ['i', 'n', 'f'] ∨ word = ['i', 'n', 'f', 'i', 'n', 'i', 't', 'y'] then
    some (Exact.toFloat (.infinite false))
  else if word = ['n', 'a', 'n'] then some (Exact.toFloat .nan)
  else none

/-- Reads a number from the whole of a text. -/
def ofText? (cs : List Char) : Option Float :=
  let (negative, rest) := signOf cs
  let magnitude := (word? rest).or ((Decimal.ofText? rest).map Decimal.toFloat)
  magnitude.map fun x => if negative then -x else x

/-- Reads a word: a sign and digits, in the range of sixty-four bits. -/
def wordOfText? (cs : List Char) : Option Int64 :=
  let (negative, ds) := signOf cs
  if ds.isEmpty || !ds.all Char.isDigit then none
  else narrow? (Exact.signed negative (digitsValue ds))

/-- Reads an index: digits, with or without a plus before them. -/
def indexOfText? (cs : List Char) : Option Nat :=
  let ds := match cs with
    | '+' :: rest => rest
    | cs => cs
  if ds.isEmpty || !ds.all Char.isDigit then none else some (digitsValue ds)

end Number

end Stencil
