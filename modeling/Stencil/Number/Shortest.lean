import Stencil.Number.Exact

/-!
# The shortest decimal of a floating-point number

Many decimals read back as one and the same binary64 number: those closer to it than to its
neighbours. Of these the shortest ones are looked for, one count of digits after the other, and
among them the nearest. All of it is done in exact arithmetic on whole numbers.
-/

namespace Stencil

/-- Which of two equally near decimals is taken. -/
inductive Tie where
  /-- The one with the even last digit. -/
  | even
  /-- The greater one. -/
  | up
  deriving DecidableEq, Repr

/-- The decimal `digits · 10 ^ exponent`. -/
structure Decimal where
  digits : Nat
  exponent : Int
  deriving DecidableEq, Repr

namespace Decimal

/-- The number of decimal digits of a natural number. -/
def digitCount (n : Nat) : Nat :=
  (Nat.toDigits 10 n).length

/-- The power of ten that the first digit of `mantissa · 2 ^ exponent` counts. Multiplied by
`10 ^ 340`, every positive binary64 number is above one. -/
def leadingExponent (mantissa : Nat) (exponent : Int) : Int :=
  digitCount (Exact.wholePart (mantissa * tenPow 340) exponent) - 341

/-- The reals that round to a positive binary64 number, and the number itself, in units of
`10 ^ exponent`: fractions `low / unit`, `value / unit` and `high / unit`. The ends belong to the
interval when `closed`. -/
structure Interval where
  low : Nat
  value : Nat
  high : Nat
  unit : Nat
  closed : Bool

/-- The interval of `mantissa · 2 ^ exponent` in units of `10 ^ unit`. It reaches half way to the
two neighbours; below the least mantissa of its size the neighbour is half as far. Its ends belong
to it when the mantissa is even, because halves are rounded to even. -/
def interval (mantissa : Nat) (exponent unit : Int) : Interval :=
  let below := if mantissa = twoPow 52 ∧ -1074 < exponent then 1 else 2
  let scale := twoPow (exponent - 2).toNat * tenPow (-unit).toNat
  { low := (4 * mantissa - below) * scale
    value := 4 * mantissa * scale
    high := (4 * mantissa + 2) * scale
    unit := twoPow (2 - exponent).toNat * tenPow unit.toNat
    closed := mantissa % 2 == 0 }

/-- Whether `n` units lie in the interval. -/
def Interval.holds (i : Interval) (n : Nat) : Bool :=
  if i.closed then i.low ≤ n * i.unit && n * i.unit ≤ i.high
  else i.low < n * i.unit && n * i.unit < i.high

/-- The whole number of units that lies in the interval and is nearest to its value, looked for
among the two neighbours of the value. -/
def Interval.nearest? (tie : Tie) (i : Interval) : Option Nat :=
  let down := i.value / i.unit
  let rest := 2 * (i.value % i.unit)
  match i.holds down, i.holds (down + 1) with
  | true, true =>
    if rest < i.unit then some down
    else if i.unit < rest then some (down + 1)
    else match tie with
      | .even => some (if down % 2 = 0 then down else down + 1)
      | .up => some (down + 1)
  | true, false => some down
  | false, true => some (down + 1)
  | false, false => none

/-- The shortest decimal that reads back as `mantissa · 2 ^ exponent`. Seventeen digits always
suffice. -/
def shortest (tie : Tie) (mantissa : Nat) (exponent : Int) : Decimal :=
  let leading := leadingExponent mantissa exponent
  let ofLength? (count : Nat) : Option Decimal :=
    let unit := leading - count
    ((interval mantissa exponent unit).nearest? tie).map (⟨·, unit⟩)
  ((List.range 17).findSome? ofLength?).getD ⟨mantissa, exponent⟩

end Decimal

end Stencil
