/-!
White space in the sense of the Unicode property White_Space.  One notion serves both uses
of the library: the characters a scanner skips between tokens are the characters trimmed
off the end of an inline comment.
-/

namespace LineLexer

/-- The twenty-five characters with the property White_Space. -/
def isBlank (c : Char) : Bool :=
  let n := c.toNat
  (0x9 ≤ n && n ≤ 0xD) || n == 0x20 || n == 0x85 || n == 0xA0 || n == 0x1680 ||
    (0x2000 ≤ n && n ≤ 0x200A) || n == 0x2028 || n == 0x2029 || n == 0x202F ||
    n == 0x205F || n == 0x3000

/-- A text without the white space at its end. -/
def trimRight (text : List Char) : List Char :=
  (text.reverse.dropWhile isBlank).reverse

example : isBlank '\n' ∧ isBlank '\u3000' ∧ ¬ isBlank '\u200B' := by decide

end LineLexer
