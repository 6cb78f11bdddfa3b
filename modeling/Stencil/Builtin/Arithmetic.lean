import Stencil.Method

/-!
# Arithmetic and comparison

The operands of arithmetic are coerced to numbers. Sums, differences and products of integers are
exact as long as every step fits a word; otherwise they are computed in floating point, and so are
all quotients and remainders. A result that is integral and fits a word is an integer.

## Main results

* `foldWords_nil`: without further operands a fold is its start.
-/

namespace Stencil.Builtin

/-- The operands as words, when all of them are integral. -/
def words? (args : Arguments) : Option (List Int64) :=
  args.positional.mapM Value.word?

/-- The operands as numbers. -/
def numbers (args : Arguments) : List Float :=
  args.positional.map Value.toNumber

/-- Folds words with an operation on integers, as long as every step fits a word. -/
def foldWords (op : Int → Int → Int) (start : Int64) (ns : List Int64) : Option Int64 :=
  ns.foldlM (fun acc n => Number.narrow? (op acc.toInt n.toInt)) start

/-- The result of words when there is one, or else that of numbers. -/
def wordsOr (exact : Option Int64) (float : Float) : Value :=
  match exact with
  | some n => .int n
  | none => Value.ofFloat float

/-- The sum of the operands. -/
def add (args : Arguments) : Value :=
  wordsOr ((words? args).bind (foldWords (· + ·) 0)) ((numbers args).foldl (· + ·) 0)

/-- The product of the operands. -/
def multiply (args : Arguments) : Value :=
  wordsOr ((words? args).bind (foldWords (· * ·) 1)) ((numbers args).foldl (· * ·) 1)

/-- The difference of words: nothing is zero, one operand is negated, and from the first of several
all others are taken away. -/
def subtractWords : List Int64 → Option Int64
  | [] => some 0
  | [n] => Number.narrow? (-n.toInt)
  | n :: ns => foldWords (· - ·) n ns

/-- The difference of numbers, in the same way. -/
def subtractNumbers : List Float → Float
  | [] => 0
  | [x] => -x
  | x :: xs => xs.foldl (· - ·) x

/-- The difference of the operands. -/
def subtract (args : Arguments) : Value :=
  wordsOr ((words? args).bind subtractWords) (subtractNumbers (numbers args))

/-- Folds the numbers from the first one on; `null` without operands. -/
def foldNumbers (op : Float → Float → Float) (args : Arguments) : Value :=
  match numbers args with
  | [] => .null
  | x :: xs => Value.ofFloat (xs.foldl op x)

/-- The quotient of the operands. -/
def divide (args : Arguments) : Value :=
  foldNumbers (· / ·) args

/-- The remainder of the operands, with the sign of the first one. -/
def modulo (args : Arguments) : Value :=
  foldNumbers Number.remainder args

/-- Whether the order of the first two operands is accepted. Without an order nothing is. -/
def ordered (accept : Ordering → Bool) (args : Arguments) : Value :=
  .bool (((args.get 0).order (args.get 1)).any accept)

/-- Whether the first two operands are loosely equal. -/
def equal (args : Arguments) : Value :=
  .bool ((args.get 0).looselyEqual (args.get 1))

/-- Whether the first two operands are not loosely equal. -/
def notEqual (args : Arguments) : Value :=
  .bool !((args.get 0).looselyEqual (args.get 1))

/-- Keeps the more extreme of two numbers, as `keep` tells. Of equal ones the earlier is kept, and
what is no number wins over everything. -/
def moreExtreme (keep : Ordering) (best : Float) (x : Float) : Float :=
  if best.isNaN || x.isNaN then Exact.toFloat .nan
  else if Value.compareNumbers x best == some keep then x
  else best

/-- The least or the greatest operand; `null` without operands. -/
def extreme (keep : Ordering) (args : Arguments) : Value :=
  foldNumbers (moreExtreme keep) args

/-- Without further operands a fold is its start. -/
theorem foldWords_nil (op : Int → Int → Int) (start : Int64) :
    foldWords op start [] = some start := rfl

end Stencil.Builtin
