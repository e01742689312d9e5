/-!
# Sets of characters

A set of characters is written as inclusive ranges of code points in increasing order, and a look-up
stops at the first range beyond the character.
-/

namespace Schemata.Text

/-- A set of characters: inclusive ranges of code points, in increasing order. -/
abbrev Ranges : Type := List (Nat × Nat)

def Ranges.contains : Ranges → Char → Bool
  | [], _ => false
  | (low, high) :: rest, c =>
    if c.toNat < low then false else if c.toNat ≤ high then true else Ranges.contains rest c

end Schemata.Text
