/-!
The blank characters that may surround a written integer: the ASCII blanks and the other
characters of the property White_Space. The four ASCII separators U+001C to U+001F are not blank,
but separate words as blanks do.
-/

namespace Chip8.Text

/-- Whether a character may stand before or after an integer. -/
def isBlank (c : Char) : Bool :=
  let n := c.toNat
  (0x09 ≤ n && n ≤ 0x0D) || n == 0x20 || n == 0x85 || n == 0xA0 || n == 0x1680 ||
    (0x2000 ≤ n && n ≤ 0x200A) || n == 0x2028 || n == 0x2029 || n == 0x202F || n == 0x205F ||
    n == 0x3000

/-- Whether a character stands between words. -/
def isGap (c : Char) : Bool := isBlank c || (0x1C ≤ c.toNat && c.toNat ≤ 0x1F)

/-- The text without the characters of a class at both ends. -/
def trim (drop : Char → Bool) (cs : List Char) : List Char :=
  ((cs.dropWhile drop).reverse.dropWhile drop).reverse

def trimBlanks (cs : List Char) : List Char := trim isBlank cs

/-- The text from its first word to its last. -/
def trimGaps (text : String) : String := String.ofList (trim isGap text.toList)

end Chip8.Text
