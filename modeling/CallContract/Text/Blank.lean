/-!
# Blank characters

The white space that is cut off the ends of a flag or a line: the separators of Unicode and the
control characters that separate lines, fields or words.
-/

namespace CallContract

def isBlank (c : Char) : Bool :=
  let n := c.toNat
  (0x09 ≤ n && n ≤ 0x0d) || (0x1c ≤ n && n ≤ 0x20) || n == 0x85 || n == 0xa0 || n == 0x1680 ||
    (0x2000 ≤ n && n ≤ 0x200a) || n == 0x2028 || n == 0x2029 || n == 0x202f || n == 0x205f ||
    n == 0x3000

def trimBlanksRight (cs : List Char) : List Char :=
  (cs.reverse.dropWhile isBlank).reverse

/-- `cs` without the blanks at both ends. -/
def trimBlanks (cs : List Char) : List Char :=
  trimBlanksRight (cs.dropWhile isBlank)

end CallContract
