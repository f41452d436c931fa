import ResourceAtlas.Json.Reader
import ResourceAtlas.Text.Wide

/-!
# Reading JSON from octets

A document starts with two characters of the basic alphabet, so the zeros among its first octets
tell how wide the units are and which of their octets comes first. A mark at the beginning of a
text in single octets is passed over.
-/

namespace ResourceAtlas.Json

open Text

/-- How octets write a text. -/
inductive Coding
  /-- In single octets. -/
  | single
  /-- In units of two. -/
  | pairs (o : Wide.Order)
  /-- In units of four. -/
  | quads (o : Wide.Order)
  deriving DecidableEq, Repr

/-- The coding of octets, by their zeros. -/
def Coding.ofOctets : List UInt8 → Coding
  | a :: b :: c :: d :: _ =>
    if a = 0 then if b = 0 then quads .great else pairs .great
    else if b = 0 then if c = 0 && d = 0 then quads .small else pairs .small
    else single
  | [a, b] => if a = 0 then pairs .great else if b = 0 then pairs .small else single
  | _ => single

/-- The mark at the beginning of a text in single octets. -/
def octetMark : List UInt8 := [0xEF, 0xBB, 0xBF]

/-- Octets without a mark at the beginning. -/
def withoutMark (octets : List UInt8) : List UInt8 :=
  if octetMark.isPrefixOf octets then octets.drop octetMark.length else octets

/-- The text that octets write. -/
def textOf? (octets : List UInt8) : Option (List Char) :=
  match Coding.ofOctets octets with
  | .single => some (Utf8.decode (withoutMark octets))
  | .pairs o => Wide.decodePairs? o octets
  | .quads o => Wide.decodeQuads? o octets

end ResourceAtlas.Json
