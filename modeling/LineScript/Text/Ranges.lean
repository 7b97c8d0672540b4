-- SUMMARY: Closed ranges of code points, the shape in which character classes are tabulated.

/-!
# Code point ranges

A character class is given by a list of closed ranges of code points, ascending and apart. This
file holds membership in such a list; the classes themselves are in the files beside it.
-/

namespace LineScript.Text

/-- The character's code point lies in one of the closed ranges. -/
def inRanges (ranges : List (Nat × Nat)) (c : Char) : Bool :=
  ranges.any fun r => r.1 ≤ c.toNat && c.toNat ≤ r.2

end LineScript.Text
