import ResourceAtlas.Text.Percent
import ResourceAtlas.Text.Printable

/-!
# Quoted text

A text is shown between single quotes, or between double quotes when it holds a single quote and
no double one. Inside, the quote and the backslash are escaped, line breaks and tabs have short
escapes, and a character without a printed form is written by its code point.
-/

namespace ResourceAtlas.Text.Quoted

/-- A hexadecimal digit in lower case. -/
def lowerHexDigit (n : Nat) : Char :=
  if n < 10 then Char.ofNat (0x30 + n) else Char.ofNat (0x57 + n)

/-- A number in hexadecimal with a fixed count of digits. -/
def hex : Nat → Nat → List Char
  | 0, _ => []
  | width + 1, n => hex width (n / 16) ++ [lowerHexDigit (n % 16)]

/-- The quote that suits a text. -/
def quoteFor (text : List Char) : Char :=
  if text.contains '\'' && !text.contains '"' then '"' else '\''

/-- The short escape of a character. -/
def shortEscape? (c : Char) : Option Char :=
  if c = '\n' then some 'n'
  else if c = '\r' then some 'r'
  else if c = '\t' then some 't'
  else none

/-- One character of a quoted text. -/
def escapeChar (quote c : Char) : List Char :=
  if c = quote || c = '\\' then ['\\', c]
  else
    match shortEscape? c with
    | some e => ['\\', e]
    | none =>
      if Printable.isPrintable c then [c]
      else
        let n := c.toNat
        if n < 0x100 then '\\' :: 'x' :: hex 2 n
        else if n < 0x10000 then '\\' :: 'u' :: hex 4 n
        else '\\' :: 'U' :: hex 8 n

/-- A text between quotes. -/
def text (s : List Char) : List Char :=
  let quote := quoteFor s
  quote :: s.flatMap (escapeChar quote) ++ [quote]

/-- One octet of a quoted octet string. -/
def escapeOctet (quote : Char) (b : UInt8) : List Char :=
  let c := Char.ofNat b.toNat
  if c = quote || c = '\\' then ['\\', c]
  else
    match shortEscape? c with
    | some e => ['\\', e]
    | none =>
      if 0x20 ≤ b.toNat ∧ b.toNat < 0x7F then [c] else '\\' :: 'x' :: hex 2 b.toNat

/-- Octets between quotes, with the mark of octets in front. -/
def octets (bytes : List UInt8) : List Char :=
  let quote := quoteFor (bytes.map fun b => Char.ofNat b.toNat)
  'b' :: quote :: bytes.flatMap (escapeOctet quote) ++ [quote]

/-- A string between quotes. -/
def string (s : String) : String :=
  String.ofList (text s.toList)

end ResourceAtlas.Text.Quoted
