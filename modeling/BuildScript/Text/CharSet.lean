/-!
# Sets of characters

A set of characters is given by the code points at which membership changes, in ascending order:
a character belongs to the set if an odd number of them is not above it.
-/

namespace BuildScript

structure CharSet where
  boundaries : List Nat

/-- Whether an odd number of the boundaries is not above `n`; `inside` is the answer so far. -/
def CharSet.decideFrom (n : Nat) (inside : Bool) : List Nat → Bool
  | [] => inside
  | b :: bs => if b ≤ n then decideFrom n (!inside) bs else inside

def CharSet.contains (s : CharSet) (c : Char) : Bool := decideFrom c.toNat false s.boundaries

end BuildScript
