/-!
# Ranges of code points

Properties of characters are given as lists of ranges of code points.
-/

namespace TokenCensus.Text

/-- The least and the greatest code point of a range. -/
abbrev CodeRange := Nat × Nat

/-- Whether the code point of `c` lies in one of the ranges. -/
def inRanges (ranges : List CodeRange) (c : Char) : Bool :=
  ranges.any fun range => range.1 ≤ c.toNat && c.toNat ≤ range.2

end TokenCensus.Text
