/-!
# White space

The characters of the Unicode property `White_Space`, and texts without them at their ends.
-/
namespace Octet.Text

/-- Membership in the Unicode property `White_Space`. -/
def isWhitespace (c : Char) : Bool :=
  let n := c.toNat
  (0x09 ≤ n && n ≤ 0x0d) || n == 0x20 || n == 0x85 || n == 0xa0 || n == 0x1680 ||
    (0x2000 ≤ n && n ≤ 0x200a) || n == 0x2028 || n == 0x2029 || n == 0x202f || n == 0x205f ||
    n == 0x3000

/-- Drop white space in front. -/
def trimStart (cs : List Char) : List Char := cs.dropWhile isWhitespace

/-- Drop white space at both ends. -/
def trim (cs : List Char) : List Char := (trimStart (trimStart cs).reverse).reverse

end Octet.Text
