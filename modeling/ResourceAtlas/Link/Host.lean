import ResourceAtlas.Link.Coding
import ResourceAtlas.Link.Numeric
import ResourceAtlas.Link.Punycode
import ResourceAtlas.Text.Case

/-!
# Hosts

The hosts of the schemes that everyone knows are domains in lower case, or numbers. The hosts of all
other schemes are names of their own kind, which keep their case.
-/

namespace ResourceAtlas.Link.Host

open Text

/-- A character that no host holds. -/
def isForbidden (c : Char) : Bool :=
  [Char.ofNat 0, '\t', '\n', '\r', ' ', '#', '/', ':', '<', '>', '?', '@', '[', '\\', ']', '^',
    '|'].contains c

/-- A character that no domain holds. -/
def isForbiddenInDomain (c : Char) : Bool :=
  isForbidden c || c.toNat < 0x20 || c.toNat = 0x7F || c == '%' || c == Utf8.replacement

/-- A name as a host. -/
def name (text : List Char) : Except Refusal String :=
  if text.head? = some '[' then Numeric.bracketed text
  else if text.any isForbidden then .error .badCharacter
  else .ok (String.ofList (Coding.encode Coding.isForeign text))

/-- The labels of a domain in lower case and in the basic alphabet. -/
def labels (text : List Char) : List String :=
  (Split.every '.' (Case.lower text)).map fun label => String.ofList (Punycode.label label)

/-- A domain or a number as a host. -/
def domain (text : List Char) : Except Refusal String :=
  if text.head? = some '[' then Numeric.bracketed text
  else
    let plain := Percent.decode text
    let host := Split.join "." (labels plain)
    if plain.any isForbiddenInDomain then .error .badDomain
    else if host.isEmpty then .error .noHost
    else if Numeric.endsInNumber host.toList then Numeric.octets host.toList
    else .ok host

end ResourceAtlas.Link.Host
