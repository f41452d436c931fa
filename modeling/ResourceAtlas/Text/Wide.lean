import ResourceAtlas.Text.Utf8

/-!
# Text in wide units

A text can be written in units of two octets or of four, with the more significant octet first or
last. Octets that fill no last unit make up no text. Of two-octet units a pair writes one character
beyond the first plane; half a pair stands for no character.
-/

namespace ResourceAtlas.Text.Wide

/-- The order of the octets in a unit. -/
inductive Order
  /-- The more significant octets come first. -/
  | great
  /-- The less significant octets come first. -/
  | small
  deriving DecidableEq, Repr

/-- The number that the octets of a unit write. -/
def Order.number (o : Order) (octets : List UInt8) : Nat :=
  let ordered := match o with
    | great => octets
    | small => octets.reverse
  ordered.foldl (fun n b => 256 * n + b.toNat) 0

/-- The numbers of units of two octets. -/
def pairs? (o : Order) : List UInt8 → Option (List Nat)
  | [] => some []
  | a :: b :: rest => (pairs? o rest).map (o.number [a, b] :: ·)
  | _ => none

/-- The numbers of units of four octets. -/
def quads? (o : Order) : List UInt8 → Option (List Nat)
  | [] => some []
  | a :: b :: c :: d :: rest => (quads? o rest).map (o.number [a, b, c, d] :: ·)
  | _ => none

/-- The first half of a pair. -/
def isHigh (n : Nat) : Bool := 0xD800 ≤ n && n ≤ 0xDBFF

/-- The second half of a pair. -/
def isLow (n : Nat) : Bool := 0xDC00 ≤ n && n ≤ 0xDFFF

/-- The character of a number; half a pair has none of its own. -/
def character (n : Nat) : Char :=
  if isHigh n || isLow n then Utf8.replacement else Char.ofNat n

/-- The characters of units of two octets. -/
def characters : List Nat → List Char
  | [] => []
  | high :: low :: rest =>
    if isHigh high && isLow low then
      Char.ofNat (0x10000 + (high - 0xD800) * 0x400 + (low - 0xDC00)) :: characters rest
    else character high :: characters (low :: rest)
  | n :: rest => character n :: characters rest

/-- The text that units of two octets write. -/
def decodePairs? (o : Order) (octets : List UInt8) : Option (List Char) :=
  (pairs? o octets).map characters

/-- The text that units of four octets write. None of them is beyond the last plane. -/
def decodeQuads? (o : Order) (octets : List UInt8) : Option (List Char) := do
  let numbers ← quads? o octets
  if numbers.all (· < 0x110000) then some (numbers.map character) else none

end ResourceAtlas.Text.Wide
