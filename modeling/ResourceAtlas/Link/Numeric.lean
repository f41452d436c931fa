import ResourceAtlas.Link.Refusal
import ResourceAtlas.Text.Percent
import ResourceAtlas.Text.Quoted
import ResourceAtlas.Text.Split

/-!
# Hosts that are numbers

A host can be an address of four octets or, between brackets, of eight groups of sixteen bits. The
octets may be written in other bases and the last of them may fill several places; the groups may
leave out one run of zeros. Each has one normal form: four decimal octets, and lower-case groups
without the first of the longest runs of zeros.
-/

namespace ResourceAtlas.Link.Numeric

open Text

/-- The number that digits write in a base. -/
def digitsIn (base : Nat) (text : List Char) : Option Nat :=
  text.foldlM (fun n c => do
    let d ← Percent.hexValue? c
    if d < base then some (n * base + d) else none) 0

/-- The number that an octet is written as: sixteen is the base after `0x`, eight after `0`. -/
def octet? : List Char → Option Nat
  | [] => none
  | ['0'] => some 0
  | '0' :: 'x' :: digits => digitsIn 16 digits
  | '0' :: 'X' :: digits => digitsIn 16 digits
  | '0' :: digits => digitsIn 8 digits
  | digits => digitsIn 10 digits

/-- The parts between dots, but for an empty one at the end. -/
def dotted (host : List Char) : List (List Char) :=
  match (Split.every '.' host).reverse with
  | [] :: part :: parts => (part :: parts).reverse
  | parts => parts.reverse

/-- Whether the last part of a host is a number. -/
def endsInNumber (host : List Char) : Bool :=
  match (dotted host).getLast? with
  | none => false
  | some part =>
    (!part.isEmpty && part.all fun c => (digitsIn 10 [c]).isSome) || (octet? part).isSome

/-- The number of an address from its parts: all but the last are single octets. -/
def joined? (index : Nat) : List Nat → Option Nat
  | [] => none
  | [last] => if last < Nat.pow 256 (4 - index) then some last else none
  | n :: rest =>
    if n < 256 then (joined? (index + 1) rest).map fun tail => n * Nat.pow 256 (3 - index) + tail
    else none

/-- The normal form of an address of four octets. -/
def octets (host : List Char) : Except Refusal String :=
  let parts := dotted host
  match if parts.length ≤ 4 then (parts.mapM octet?).bind (joined? 0) else none with
  | none => .error .badOctets
  | some n => .ok (Split.join "."
      ([n / 256 / 256 / 256, n / 256 / 256 % 256, n / 256 % 256, n % 256].map toString))

/-- A group of four hexadecimal digits at most. -/
def group? (text : List Char) : Option Nat :=
  if text.isEmpty || 4 < text.length then none else digitsIn 16 text

/-- An octet that is written plainly. -/
def plainOctet? (text : List Char) : Option Nat :=
  match text with
  | [] => none
  | '0' :: _ :: _ => none
  | digits => (digitsIn 10 digits).filter (· < 256)

/-- The two groups that four octets fill. -/
def octetGroups? (text : List Char) : Option (List Nat) := do
  match ← (Split.every '.' text).mapM plainOctet? with
  | [a, b, c, d] => some [a * 256 + b, c * 256 + d]
  | _ => none

/-- The groups between colons; the last two may be written as octets. -/
def groupsOf? : List (List Char) → Option (List Nat)
  | [] => some []
  | [part] => if part.contains '.' then octetGroups? part else (group? part).map fun n => [n]
  | part :: parts => do
    let n ← group? part
    let more ← groupsOf? parts
    some (n :: more)

/-- The groups between colons of a text that may be empty. -/
def groups? (text : List Char) : Option (List Nat) :=
  if text.isEmpty then some [] else groupsOf? (Split.every ':' text)

/-- The eight groups of an address. Two colons stand for a run of zeros. -/
def address? (text : List Char) : Option (List Nat) := do
  match Split.atWord [':', ':'] text with
  | none => (← groups? text) |> fun all => if all.length = 8 then some all else none
  | some (before, after) =>
    let front ← groups? before
    let back ← groups? after
    let given := front.length + back.length
    if before.contains '.' || 7 < given then none
    else some (front ++ List.replicate (8 - given) 0 ++ back)

/-- How many zeros stand at the start. -/
def zeros (groups : List Nat) : Nat :=
  (groups.takeWhile (· == 0)).length

/-- The length of the longest run of zeros. -/
def longest : List Nat → Nat
  | [] => 0
  | n :: rest => max (zeros (n :: rest)) (longest rest)

/-- The groups before and after the first run of a number of zeros. -/
def aroundZeros (count : Nat) : List Nat → List Nat × List Nat
  | [] => ([], [])
  | n :: rest =>
    if zeros (n :: rest) = count then ([], (n :: rest).drop count)
    else
      let (front, back) := aroundZeros count rest
      (n :: front, back)

/-- A group in lower-case hexadecimal digits. -/
def groupText (n : Nat) : String :=
  String.ofList (Nat.toDigits 16 n)

/-- Groups with a colon between each two. -/
def colonText (groups : List Nat) : String :=
  Split.join ":" (groups.map groupText)

/-- Eight groups without the first of the longest runs of zeros. -/
def addressText (all : List Nat) : String :=
  let count := longest all
  if count < 2 then colonText all
  else
    let (front, back) := aroundZeros count all
    colonText front ++ "::" ++ colonText back

/-- The normal form of an address of eight groups between brackets. -/
def bracketed (host : List Char) : Except Refusal String :=
  match host.getLast?, address? (host.drop 1).dropLast with
  | some ']', some all => .ok ("[" ++ addressText all ++ "]")
  | _, _ => .error .badGroups

end ResourceAtlas.Link.Numeric
