/-!
# Sets of characters

Sets of characters, given by ranges of their numbers.
-/

namespace MessageWire.Text

/-- Ranges of characters by their numbers, each with both its ends, from the lowest to the highest. -/
abbrev CharRanges := List (Nat × Nat)

/-- Whether a character lies in one of the ranges. The first range that does not end in front of the
character decides, because those behind it begin later still. -/
def CharRanges.covers : CharRanges → Char → Bool
  | [], _ => false
  | (low, high) :: rest, c => if c.toNat ≤ high then low ≤ c.toNat else covers rest c

end MessageWire.Text
