-- SUMMARY: White space, and text without the white space around it.
import LineScript.Text.Ranges

/-!
# White space

The white space of Unicode together with the four information separators `U+001C` to `U+001F`.
-/

namespace LineScript.Text

/-- The code points of white space. -/
def blankRanges : List (Nat × Nat) :=
  [(0x09, 0x0D), (0x1C, 0x20), (0x85, 0x85), (0xA0, 0xA0), (0x1680, 0x1680), (0x2000, 0x200A),
   (0x2028, 0x2029), (0x202F, 0x202F), (0x205F, 0x205F), (0x3000, 0x3000)]

/-- The character is white space. -/
def isBlank (c : Char) : Bool := inRanges blankRanges c

/-- The text without the characters of a class at its two ends. -/
def trimBoth (p : Char → Bool) (cs : List Char) : List Char :=
  ((cs.dropWhile p).reverse.dropWhile p).reverse

/-- The text without the white space at its two ends. -/
def trim (cs : List Char) : List Char := trimBoth isBlank cs

end LineScript.Text
