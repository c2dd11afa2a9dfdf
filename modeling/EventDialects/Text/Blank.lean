/-!
# Blank characters

A revision's name and a written number may stand between blanks, which do not belong to them.
`isBlank` is the set of blank characters and `strip` removes them from both ends.
-/

namespace EventDialects.Text

/-- The blank characters: the tab and line controls, the four separators of information, the
spaces, and the line and paragraph separators. -/
def isBlank (c : Char) : Bool :=
  let n := c.toNat
  (9 ≤ n && n ≤ 13) || (28 ≤ n && n ≤ 32) || n == 0x85 || n == 0xA0 || n == 0x1680
    || (0x2000 ≤ n && n ≤ 0x200A) || n == 0x2028 || n == 0x2029 || n == 0x202F
    || n == 0x205F || n == 0x3000

/-- The blanks that a number's text may have around it once its other characters are read:
ASCII alone, without the separators of information. -/
def isPlainBlank (c : Char) : Bool :=
  let n := c.toNat
  (9 ≤ n && n ≤ 13) || n == 32

def trimBy (p : Char → Bool) (s : List Char) : List Char :=
  ((s.dropWhile p).reverse.dropWhile p).reverse

/-- Removes the blanks from both ends. -/
def strip (s : List Char) : List Char := trimBy isBlank s

end EventDialects.Text
