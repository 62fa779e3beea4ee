/-! # Sets of characters, as ranges of code points -/
namespace Fireworks.Text

/-- Ranges of code points with both ends included. -/
abbrev CharRanges := List (Nat × Nat)

def CharRanges.contains (ranges : CharRanges) (c : Char) : Bool :=
  ranges.any fun (first, last) => first ≤ c.toNat && c.toNat ≤ last

end Fireworks.Text
