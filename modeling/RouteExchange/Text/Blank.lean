/-
  Blank characters, trimming, and texts that differ in ASCII case only.

  * `isBlank` holds of the characters with the Unicode property White_Space;
  * `trim` drops the blank characters at both ends of a text;
  * `sameIgnoringCase` identifies the ASCII letters of either case, no others.
-/

namespace RouteExchange.Text

/-- The characters with the Unicode property White_Space. -/
def isBlank (c : Char) : Bool :=
  let n := c.toNat
  (0x09 ≤ n && n ≤ 0x0D) || n == 0x20 || n == 0x85 || n == 0xA0 || n == 0x1680 ||
    (0x2000 ≤ n && n ≤ 0x200A) || n == 0x2028 || n == 0x2029 || n == 0x202F ||
    n == 0x205F || n == 0x3000

/-- A text without the blank characters at its two ends. -/
def trim (cs : List Char) : List Char :=
  ((cs.dropWhile isBlank).reverse.dropWhile isBlank).reverse

/-- Two texts are the same up to the case of ASCII letters. -/
def sameIgnoringCase (a b : List Char) : Bool :=
  a.map Char.toLower == b.map Char.toLower

end RouteExchange.Text
