/-!
# Why a text is no link
-/

namespace ResourceAtlas.Link

/-- Why a text is no link. -/
inductive Refusal
  /-- There is no text. -/
  | empty
  /-- There is no scheme. -/
  | relative
  /-- A host is wanted and there is none. -/
  | noHost
  /-- The number of a port is no number or too great. -/
  | badPort
  /-- The host ends in a number and is no address of four octets. -/
  | badOctets
  /-- The host starts with a bracket and is no address of eight groups. -/
  | badGroups
  /-- The host holds a character that no host has. -/
  | badCharacter
  /-- The host is no domain. -/
  | badDomain
  deriving DecidableEq, Repr

/-- The wording of a refusal. -/
def Refusal.message : Refusal → String
  | empty => "input is empty"
  | relative => "relative URL without a base"
  | noHost => "empty host"
  | badPort => "invalid port number"
  | badOctets => "invalid IPv4 address"
  | badGroups => "invalid IPv6 address"
  | badCharacter => "invalid domain character"
  | badDomain => "invalid international domain name"

end ResourceAtlas.Link
