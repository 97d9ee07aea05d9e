/-!
# Sets of code points

A set of code points is kept as the ascending list of the code points at which membership
changes: the first entry opens a run, the second closes it, and so on. A character is a
member when an odd number of entries lie at or below it.
-/

namespace Keystroke

/-- A set of code points, as the ascending list of places where membership changes. -/
structure CodePointSet where
  flips : List Nat

/-- The places after `place`, each at a distance from the one before. -/
def placesFrom (place : Nat) : List Nat → List Nat
  | [] => []
  | distance :: rest => (place + distance) :: placesFrom (place + distance) rest

namespace CodePointSet

/-- Whether the scan has passed an odd number of entries when it reaches `point`. -/
def memberFrom (inside : Bool) (point : Nat) : List Nat → Bool
  | [] => inside
  | flip :: rest => if flip ≤ point then memberFrom (!inside) point rest else inside

/-- Membership of a character. -/
def contains (set : CodePointSet) (c : Char) : Bool :=
  memberFrom false c.toNat set.flips

end CodePointSet

end Keystroke
