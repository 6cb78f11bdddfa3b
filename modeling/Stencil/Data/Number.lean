import Stencil.Number.Reader

/-!
# Numbers in data texts

A number of a data text is an integer as long as a word of sixty-four bits holds its digits and
nothing follows them. Otherwise its digits are gathered in such a word, digits that no longer fit
only move the point, and the word is multiplied with or divided by a power of ten. The last step
rounds, so that long decimals may end one unit away from the nearest number. Numbers beyond the
range of binary64 are refused.
-/

namespace Stencil.DataText

/-- The digits of a number gathered so far: their value, and how many places the point moved. -/
structure Gathered where
  value : Nat
  exponent : Int

/-- Whether one more digit fits into the word. -/
def Gathered.fits (g : Gathered) (digit : Char) : Bool :=
  g.value * 10 + (digit.toNat - '0'.toNat) < twoPow 64

/-- The gathered digits with one more. -/
def Gathered.push (g : Gathered) (digit : Char) (shift : Int) : Gathered :=
  ⟨g.value * 10 + (digit.toNat - '0'.toNat), g.exponent + shift⟩

/-- Gathers digits that all have to fit, each of which moves the point by `shift`. What does not
fit is left over. -/
def gather (shift : Int) (g : Gathered) : List Char → Gathered × List Char
  | [] => (g, [])
  | d :: ds => if g.fits d then gather shift (g.push d shift) ds else (g, d :: ds)

/-- The power `10 ^ n`, rounded to the nearest number. -/
def powerOfTen (n : Nat) : Float :=
  Float.ofScientific 1 false n

/-- The word divided by `10 ^ n`, in steps of at most `10 ^ 308`. -/
def divided (x : Float) (n : Nat) : Float :=
  if x == 0 then x
  else if n ≤ 308 then x / powerOfTen n
  else divided (x / powerOfTen 308) (n - 308)
termination_by n

/-- The number of the gathered digits, when it is in range. -/
def Gathered.toFloat? (g : Gathered) : Option Float :=
  let x := Float.ofNat g.value
  if g.exponent < 0 then some (divided x g.exponent.natAbs)
  else if 308 < g.exponent then if x == 0 then some x else none
  else
    let scaled := x * powerOfTen g.exponent.toNat
    if scaled.isInf then none else some scaled

/-- A number of a data text. -/
inductive Numeral where
  | int (n : Int64)
  | float (x : Float)

/-- Reads the power of ten after an `e`: its value, and the rest of the text. Without an `e` it is
zero. -/
def exponent? (cs : List Char) : Option (Int × List Char) :=
  match cs with
  | [] => some (0, [])
  | c :: rest =>
    if c = 'e' ∨ c = 'E' then
      let (negative, rest) := signOf rest
      let (digits, rest) := digitRun rest
      if digits.isEmpty then none else some (Exact.signed negative (digitsValue digits), rest)
    else some (0, cs)

/-- The number of gathered digits and an exponent. An exponent beyond thirty-one bits settles the
answer by itself. -/
def scaled? (g : Gathered) (exponent : Int) : Option Float :=
  if exponent.natAbs < twoPow 31 then { g with exponent := g.exponent + exponent }.toFloat?
  else if g.value ≠ 0 ∧ 0 < exponent then none
  else some 0

/-- Reads a number without its minus sign: the number, and the rest of the text. A leading zero
stands alone, and a point has digits on both sides. -/
def magnitude? (negative : Bool) (cs : List Char) : Option (Numeral × List Char) := do
  let (whole, rest) := digitRun cs
  if whole.isEmpty || (whole.head? == some '0' && 1 < whole.length) then none
  let (g, dropped) := gather 0 ⟨0, 0⟩ whole
  let g : Gathered := { g with exponent := dropped.length }
  let sign (x : Float) : Float := if negative then -x else x
  match rest with
  | '.' :: rest =>
    let (fraction, rest) := digitRun rest
    if fraction.isEmpty then none
    let (g, _) := gather (-1) g fraction
    let (exponent, rest) ← exponent? rest
    return (.float (sign (← scaled? g exponent)), rest)
  | rest =>
    let (exponent, after) ← exponent? rest
    if after.length < rest.length || !dropped.isEmpty then
      return (.float (sign (← scaled? g exponent)), after)
    else
      match Number.narrow? (Exact.signed negative g.value) with
      | some n =>
        if negative && n == 0 then return (.float (-0.0), rest) else return (.int n, rest)
      | none => return (.float (sign (Float.ofNat g.value)), rest)

/-- Reads a number: the number, and the rest of the text. -/
def numeral? : List Char → Option (Numeral × List Char)
  | '-' :: rest => magnitude? true rest
  | cs => magnitude? false cs

end Stencil.DataText
