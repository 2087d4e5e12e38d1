/-!
# Ranges of code points

A character class given by the first and the last code point of each of its ranges.
-/

namespace Ramlify.Unicode

/-- Ranges of code points, both ends included. -/
abbrev CodeRanges := List (Nat × Nat)

/-- Whether a character lies in one of the ranges. -/
def CodeRanges.contains (ranges : CodeRanges) (c : Char) : Bool :=
  ranges.any fun r => r.1 ≤ c.toNat && c.toNat ≤ r.2

end Ramlify.Unicode
