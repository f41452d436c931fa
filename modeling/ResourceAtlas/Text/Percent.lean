import ResourceAtlas.Text.Utf8

/-!
# Percent coding

`encode` keeps letters, digits and `_ . - ~` and writes every octet of any other character as a
percent sign with two upper-case hexadecimal digits. `decode` reads such triples in either case of
letters; a percent sign that two hexadecimal digits do not follow stands for itself.
-/

namespace ResourceAtlas.Text.Percent

/-- A hexadecimal digit in upper case. -/
def hexDigit (n : Nat) : Char :=
  if n < 10 then Char.ofNat (0x30 + n) else Char.ofNat (0x37 + n)

/-- The value of a hexadecimal digit. -/
def hexValue? (c : Char) : Option Nat :=
  let n := c.toNat
  if 0x30 ≤ n ∧ n ≤ 0x39 then some (n - 0x30)
  else if 0x41 ≤ n ∧ n ≤ 0x46 then some (n - 0x37)
  else if 0x61 ≤ n ∧ n ≤ 0x66 then some (n - 0x57)
  else none

/-- A character that percent coding leaves alone. -/
def isUnreserved (c : Char) : Bool :=
  let n := c.toNat
  (0x41 ≤ n && n ≤ 0x5A) || (0x61 ≤ n && n ≤ 0x7A) || (0x30 ≤ n && n ≤ 0x39) ||
    c == '_' || c == '.' || c == '-' || c == '~'

/-- The three characters that stand for an octet. -/
def encodeOctet (b : UInt8) : List Char :=
  ['%', hexDigit (b.toNat / 16), hexDigit (b.toNat % 16)]

/-- The coded form of a character. -/
def encodeChar (c : Char) : List Char :=
  if isUnreserved c then [c] else (Utf8.encodeChar c).flatMap encodeOctet

/-- The coded form of a text. -/
def encode (text : List Char) : List Char :=
  text.flatMap encodeChar

/-- The octet that two hexadecimal digits write. -/
def octet? (high low : Char) : Option UInt8 :=
  match hexValue? high, hexValue? low with
  | some h, some l => some (UInt8.ofNat (16 * h + l))
  | _, _ => none

/-- The octets that a coded text stands for. -/
def octets : List Char → List UInt8
  | [] => []
  | '%' :: high :: low :: rest =>
    match octet? high low with
    | some b => b :: octets rest
    | none => Utf8.encodeChar '%' ++ octets (high :: low :: rest)
  | c :: rest => Utf8.encodeChar c ++ octets rest

/-- The text that a coded text stands for. -/
def decode (text : List Char) : List Char :=
  Utf8.decode (octets text)

/-- The coded form of a string. -/
def encodeString (s : String) : String :=
  String.ofList (encode s.toList)

end ResourceAtlas.Text.Percent
