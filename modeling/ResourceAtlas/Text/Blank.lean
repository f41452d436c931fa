/-!
# Blanks

Two classes of blanks: the white space of running text, which names in a list are trimmed of, and
the narrower class that may stand around a number.
-/

namespace ResourceAtlas.Text.Blank

/-- White space of running text, the four information separators included. -/
def isBlank (c : Char) : Bool :=
  let n := c.toNat
  (0x9 ≤ n && n ≤ 0xD) || (0x1C ≤ n && n ≤ 0x20) || n == 0x85 || n == 0xA0 || n == 0x1680 ||
    (0x2000 ≤ n && n ≤ 0x200A) || n == 0x2028 || n == 0x2029 || n == 0x202F || n == 0x205F ||
    n == 0x3000

/-- White space that may stand around a number: no information separator does. -/
def isNumberBlank (c : Char) : Bool :=
  isBlank c && !(0x1C ≤ c.toNat && c.toNat ≤ 0x1F)

/-- A text without the characters of a class at both ends. -/
def trimOf (p : Char → Bool) (text : List Char) : List Char :=
  ((text.dropWhile p).reverse.dropWhile p).reverse

/-- A text without blanks at both ends. -/
def trim (text : List Char) : List Char :=
  trimOf isBlank text

end ResourceAtlas.Text.Blank
