/-!
# What a floating-point number stands for

A binary64 number is a signed zero or a mantissa times a power of two, one of the two infinities,
or no number at all. Everything that has to be exact about floating-point numbers is computed on
this reading with whole numbers: whether a number is integral, which integer it is, and the
remainder of a division.

## Main results

* `integer?_of_nonneg`: a mantissa shifted to the left is integral, and is that integer.
-/

namespace Stencil

/-- A power of two. -/
def twoPow (n : Nat) : Nat :=
  Nat.pow 2 n

/-- A power of ten. -/
def tenPow (n : Nat) : Nat :=
  Nat.pow 10 n

/-- The exact meaning of a binary64 number. -/
inductive Exact where
  | nan
  | infinite (negative : Bool)
  /-- The number `mantissa · 2 ^ exponent`, or its negation. -/
  | finite (negative : Bool) (mantissa : Nat) (exponent : Int)
  deriving DecidableEq, Repr

namespace Exact

/-- Reads the sign, the exponent field and the fraction of a binary64 number. -/
def ofBits (bits : Nat) : Exact :=
  let negative := bits / twoPow 63 % 2 == 1
  let field : Nat := bits / twoPow 52 % twoPow 11
  let fraction : Nat := bits % twoPow 52
  if field = 2047 then
    if fraction = 0 then .infinite negative else .nan
  else if field = 0 then .finite negative fraction (-1074)
  else .finite negative (twoPow 52 + fraction) ((field : Int) - 1075)

/-- The exact meaning of a number. -/
def ofFloat (x : Float) : Exact :=
  ofBits x.toBits.toNat

/-- An integer with a given sign. -/
def signed (negative : Bool) (n : Nat) : Int :=
  if negative then -n else n

/-- The integer below a magnitude, that is its whole part. -/
def wholePart (mantissa : Nat) (exponent : Int) : Nat :=
  if 0 ≤ exponent then mantissa * twoPow exponent.toNat else mantissa / twoPow (-exponent).toNat

/-- The integer that a number is, if it is one. -/
def integer? : Exact → Option Int
  | .finite negative mantissa exponent =>
    if 0 ≤ exponent ∨ mantissa % twoPow (-exponent).toNat = 0 then
      some (signed negative (wholePart mantissa exponent))
    else none
  | _ => none

/-- The remainder of a division that is truncated towards zero. It has the sign of the dividend;
there is none for a division by zero, and an infinite divisor leaves the dividend as it is. -/
def remainder : Exact → Exact → Exact
  | .finite negative m e, .finite _ m' e' =>
    if m' = 0 then .nan
    else
      let common := min e e'
      .finite negative (m * twoPow (e - common).toNat % (m' * twoPow (e' - common).toNat)) common
  | .finite negative m e, .infinite _ => .finite negative m e
  | _, _ => .nan

/-- The bits of a magnitude whose mantissa has at most fifty-three digits, in the range of
binary64. -/
def magnitudeBits (mantissa : Nat) (exponent : Int) : Nat :=
  if mantissa = 0 then 0
  else
    let top := mantissa.log2 + exponent
    if top < -1022 then mantissa * twoPow (exponent + 1074).toNat
    else (top + 1022).toNat * twoPow 52 + mantissa * twoPow (52 - mantissa.log2)

/-- The bits of a number. -/
def toBits : Exact → Nat
  | .nan => 0x7ff8000000000000
  | .infinite negative => (if negative then twoPow 63 else 0) + 0x7ff0000000000000
  | .finite negative mantissa exponent =>
    (if negative then twoPow 63 else 0) + magnitudeBits mantissa exponent

/-- The floating-point number with a given exact meaning. -/
def toFloat (x : Exact) : Float :=
  Float.ofBits x.toBits.toUInt64

/-! ### Integers -/

/-- A mantissa shifted to the left is integral, and is that integer. -/
theorem integer?_of_nonneg {negative : Bool} {mantissa : Nat} {exponent : Int}
    (h : 0 ≤ exponent) :
    integer? (.finite negative mantissa exponent) =
      some (signed negative (mantissa * twoPow exponent.toNat)) := by
  simp [integer?, wholePart, h]

end Exact

namespace Number

/-- One more than the greatest word. -/
def wordEnd : Nat := 0x8000000000000000

/-- The word that holds an integer, when the integer fits. -/
def narrow? (n : Int) : Option Int64 :=
  if -wordEnd ≤ n ∧ n < wordEnd then some (Int64.ofInt n) else none

/-- The word that a number is, when it is integral and its magnitude is below `2 ^ 63`. -/
def toWord? (x : Float) : Option Int64 :=
  match (Exact.ofFloat x).integer? with
  | some n => if n.natAbs < wordEnd then some (Int64.ofInt n) else none
  | none => none

/-- The number of a word, rounded to the nearest. -/
def ofWord (n : Int64) : Float :=
  Float.ofInt n.toInt

/-- The remainder of a division truncated towards zero. -/
def remainder (x y : Float) : Float :=
  (Exact.remainder (.ofFloat x) (.ofFloat y)).toFloat

/-- How many items a numeric limit lets through: none below zero and none when it is no number;
all, given as `none`, when it is infinite. -/
def limit (x : Float) : Option Nat :=
  match Exact.ofFloat x with
  | .nan => some 0
  | .infinite negative => if negative then some 0 else none
  | .finite negative mantissa exponent =>
    if negative then some 0 else some (Exact.wholePart mantissa exponent)

end Number

end Stencil
