/-
  RoadSplice.Text.Blank — blanks around a word.
-/

namespace RoadSplice.Text

/-- **The characters with the Unicode property `White_Space`.** -/
def isBlank (c : Char) : Bool :=
  let n := c.toNat
  (0x09 ≤ n && n ≤ 0x0d) || n == 0x20 || n == 0x85 || n == 0xa0 || n == 0x1680
    || (0x2000 ≤ n && n ≤ 0x200a) || n == 0x2028 || n == 0x2029 || n == 0x202f || n == 0x205f
    || n == 0x3000

/-- A text without the blanks at its two ends. -/
def trim (text : List Char) : List Char :=
  ((text.dropWhile isBlank).reverse.dropWhile isBlank).reverse

/-- The parts of a text before and after the first `mark`. -/
def splitAt? (mark : Char) (text : List Char) : Option (List Char × List Char) :=
  match text.span (· != mark) with
  | (_, []) => none
  | (left, _ :: right) => some (left, right)

end RoadSplice.Text
