/-!
# Ranges of code points

A class of characters is written as a list of closed ranges of code points, ascending and
with a gap between two neighbours.

## Main definitions

* `CodeRange`, `inRanges` — ranges, and membership in one of several.
-/

namespace Reactors
namespace Text

/-- The first and the last of the code points in a range. -/
abbrev CodeRange := Nat × Nat

/-- Whether a character lies in one of several ranges. -/
def inRanges (ranges : List CodeRange) (c : Char) : Bool :=
  ranges.any fun r => r.1 ≤ c.toNat && c.toNat ≤ r.2

end Text
end Reactors
