/-! # Sets of characters

A set of characters is a list of inclusive ranges of code points, the form in which the tables of
character properties are published.
-/

namespace PeerExpansion

/-- Inclusive ranges of code points. -/
abbrev CodePoints := List (Nat × Nat)

def CodePoints.contains (ranges : CodePoints) (character : Char) : Bool :=
  ranges.any fun (low, high) => low ≤ character.toNat && character.toNat ≤ high

end PeerExpansion
