/-!
# Ranges of code points

A character class is a list of closed ranges of code points.
-/

namespace Upkeep.Text

/-- Whether a code point lies in one of the closed ranges. -/
def inRanges (ranges : List (Nat × Nat)) (n : Nat) : Bool :=
  ranges.any fun (lo, hi) => lo ≤ n && n ≤ hi

end Upkeep.Text
