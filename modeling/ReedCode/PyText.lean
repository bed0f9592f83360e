import ReedCode.Lib.Text

/-!
# Python's operations on text

* `isSpace`, `strip`, `words` — `str.strip()` and `str.split()`.
* `afterLast` — the text behind the last occurrence of a character.
-/

set_option autoImplicit false

namespace ReedCode.PyText

/-- `str.isspace` of one character. -/
def isSpace (c : Char) : Bool :=
  let n := c.toNat
  (9 ≤ n && n ≤ 13) || (28 ≤ n && n ≤ 32) || n == 0x85 || n == 0xA0 || n == 0x1680 ||
    (0x2000 ≤ n && n ≤ 0x200A) || n == 0x2028 || n == 0x2029 || n == 0x202F || n == 0x205F ||
    n == 0x3000

/-- `text.strip()`. -/
def strip (text : List Char) : List Char :=
  ((text.dropWhile isSpace).reverse.dropWhile isSpace).reverse

/-- `text.split()`. -/
def words (text : List Char) : List (List Char) := (text.splitOnP isSpace).filter (· ≠ [])

/-- What stands behind the last `c`. -/
def afterLast (c : Char) (text : List Char) : Option (List Char) :=
  if c ∈ text then some (text.reverse.takeWhile (· ≠ c)).reverse else none

example : words " a\tbc \n".toList = ["a".toList, "bc".toList] := by decide +kernel

end ReedCode.PyText
