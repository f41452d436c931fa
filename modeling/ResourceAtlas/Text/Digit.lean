/-!
# Decimal digits of every script

Each script writes its digits on ten consecutive code points, so the code point of a zero stands
for all ten. `isInteger` is the shape that an address reads as a number.
-/

namespace ResourceAtlas.Text.Digit

/-- The code points of the zeros. -/
def zeros : List Nat :=
  [
   48, 1632, 1776, 1984, 2406, 2534, 2662, 2790, 2918, 3046, 3174, 3302, 3430, 3558, 3664, 3792,
   3872, 4160, 4240, 6112, 6160, 6470, 6608, 6784, 6800, 6992, 7088, 7232, 7248, 42528, 43216,
   43264, 43472, 43504, 43600, 44016, 65296, 66720, 68912, 69734, 69872, 69942, 70096, 70384,
   70736, 70864, 71248, 71360, 71472, 71904, 72016, 72784, 73040, 73120, 92768, 92864, 93008,
   120782, 120792, 120802, 120812, 120822, 123200, 123632, 125264, 130032
  ]

/-- The value of a decimal digit of any script. -/
def value? (c : Char) : Option Nat :=
  let n := c.toNat
  if n < 0x80 then
    if 0x30 ≤ n ∧ n ≤ 0x39 then some (n - 0x30) else none
  else
    zeros.findSome? fun z => if z ≤ n ∧ n ≤ z + 9 then some (n - z) else none

/-- A decimal digit of some script. -/
def isDigit (c : Char) : Bool :=
  (value? c).isSome

/-- A text without the one line feed that may end it. -/
def dropFinalLineFeed (text : List Char) : List Char :=
  if text.getLast? = some '\n' then text.dropLast else text

/-- A text without the one minus that may start it. -/
def dropMinus : List Char → List Char
  | '-' :: rest => rest
  | text => text

/-- The minus that starts a text. -/
def isNegative : List Char → Bool
  | '-' :: _ => true
  | _ => false

/-- One digit or more and nothing else. -/
def isDigits (text : List Char) : Bool :=
  !text.isEmpty && text.all isDigit

/-- An optional minus, digits, and at most one line feed at the end. -/
def isInteger (text : List Char) : Bool :=
  isDigits (dropFinalLineFeed (dropMinus text))

end ResourceAtlas.Text.Digit
