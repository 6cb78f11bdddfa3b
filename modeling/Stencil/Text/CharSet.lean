/-!
# Sets of characters

A set of characters is kept as its boundaries: the code points, in ascending order, at which
membership changes. It begins outside, so a character is a member when an odd number of boundaries
lies at or below it.

The sets of this library, and its case mappings, are those of version 17 of the Unicode standard.
-/

namespace Stencil

/-- A set of characters, given by the code points at which membership changes. -/
structure CharSet where
  boundaries : List Nat

namespace CharSet

/-- Whether `n` lies inside, when the code points before the boundaries `bs` are `inside`. -/
def insideAt (inside : Bool) (n : Nat) : List Nat → Bool
  | [] => inside
  | b :: bs => if n < b then inside else insideAt (!inside) n bs

/-- Membership of a character. -/
def contains (set : CharSet) (c : Char) : Bool :=
  insideAt false c.toNat set.boundaries

end CharSet

end Stencil
