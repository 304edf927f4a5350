/-!
# White space

* `isBlank` is the property White_Space of the character standard.
* `trimEnd`, `trim` and `trimStart` remove blank characters at the ends of a text.
-/

namespace Arbiter

/-- White space: tabs and line ends, the spaces of all widths, and the two separators. -/
def isBlank (c : Char) : Bool :=
  let n := c.toNat
  (9 ≤ n && n ≤ 13) || n == 0x20 || n == 0x85 || n == 0xA0 || n == 0x1680 || (0x2000 ≤ n && n ≤ 0x200A) ||
    n == 0x2028 || n == 0x2029 || n == 0x202F || n == 0x205F || n == 0x3000

/-- The text without white space at its beginning. -/
def trimStart (s : List Char) : List Char :=
  s.dropWhile isBlank

/-- The text without white space at its end. -/
def trimEnd (s : String) : String :=
  String.ofList (s.toList.reverse.dropWhile isBlank).reverse

/-- The text without white space at either end. -/
def trim (s : String) : String :=
  trimEnd (String.ofList (trimStart s.toList))

end Arbiter
