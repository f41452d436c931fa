/-!
# The octets of characters

`encode` writes characters as UTF-8 octets. `decode` reads any octets: each maximal part that
starts no character or breaks off inside one is read as one replacement character. `flaw?` tells
where the first such part lies.
-/

namespace ResourceAtlas.Text.Utf8

/-- What stands for octets that make up no character. -/
def replacement : Char := Char.ofNat 0xFFFD

/-- The octets of one character. -/
def encodeChar (c : Char) : List UInt8 :=
  let n := c.toNat
  if n < 0x80 then [UInt8.ofNat n]
  else if n < 0x800 then [UInt8.ofNat (0xC0 + n / 64), UInt8.ofNat (0x80 + n % 64)]
  else if n < 0x10000 then
    [UInt8.ofNat (0xE0 + n / 4096), UInt8.ofNat (0x80 + n / 64 % 64), UInt8.ofNat (0x80 + n % 64)]
  else
    [UInt8.ofNat (0xF0 + n / 262144), UInt8.ofNat (0x80 + n / 4096 % 64),
      UInt8.ofNat (0x80 + n / 64 % 64), UInt8.ofNat (0x80 + n % 64)]

/-- The octets of a text. -/
def encode (text : List Char) : List UInt8 :=
  text.flatMap encodeChar

/-- What a leading octet promises. -/
structure Lead where
  /-- The bits that the leading octet contributes. -/
  high : Nat
  /-- How many octets follow. -/
  tails : Nat
  /-- The least second octet. -/
  low : Nat
  /-- The greatest second octet. -/
  top : Nat

/-- The promise of an octet that leads a character of several octets. -/
def lead? (b : Nat) : Option Lead :=
  if 0xC2 ≤ b ∧ b ≤ 0xDF then some ⟨b - 0xC0, 1, 0x80, 0xBF⟩
  else if b = 0xE0 then some ⟨b - 0xE0, 2, 0xA0, 0xBF⟩
  else if b = 0xED then some ⟨b - 0xE0, 2, 0x80, 0x9F⟩
  else if 0xE1 ≤ b ∧ b ≤ 0xEF then some ⟨b - 0xE0, 2, 0x80, 0xBF⟩
  else if b = 0xF0 then some ⟨b - 0xF0, 3, 0x90, 0xBF⟩
  else if 0xF1 ≤ b ∧ b ≤ 0xF3 then some ⟨b - 0xF0, 3, 0x80, 0xBF⟩
  else if b = 0xF4 then some ⟨b - 0xF0, 3, 0x80, 0x8F⟩
  else none

/-- Read `tails` more octets, the next one within the given bounds, behind the bits read so far. -/
def decodeTails : Nat → Nat → Nat → Nat → List UInt8 → Char × List UInt8
  | 0, bits, _, _, rest => (Char.ofNat bits, rest)
  | _ + 1, _, _, _, [] => (replacement, [])
  | tails + 1, bits, low, top, b :: rest =>
    if low ≤ b.toNat ∧ b.toNat ≤ top then
      decodeTails tails (bits * 64 + b.toNat % 64) 0x80 0xBF rest
    else (replacement, b :: rest)

/-- Read the character that an octet starts. -/
def decodeChar (b : UInt8) (rest : List UInt8) : Char × List UInt8 :=
  if b.toNat < 0x80 then (Char.ofNat b.toNat, rest)
  else
    match lead? b.toNat with
    | none => (replacement, rest)
    | some l => decodeTails l.tails l.high l.low l.top rest

theorem decodeTails_length_le (tails bits low top : Nat) (rest : List UInt8) :
    (decodeTails tails bits low top rest).2.length ≤ rest.length := by
  induction tails generalizing bits low top rest with
  | zero => simp [decodeTails]
  | succ tails ih =>
    cases rest with
    | nil => simp [decodeTails]
    | cons b rest =>
      rw [decodeTails]
      split
      · exact Nat.le_succ_of_le (ih _ _ _ _)
      · exact Nat.le_refl _

theorem decodeChar_length_le (b : UInt8) (rest : List UInt8) :
    (decodeChar b rest).2.length ≤ rest.length := by
  unfold decodeChar
  split
  · exact Nat.le_refl _
  · split
    · exact Nat.le_refl _
    · exact decodeTails_length_le _ _ _ _ _

/-- The first octets that write no character: the index where they start and how many there are,
which is not known where the octets break off inside a character. -/
def flawFrom? (index : Nat) : List UInt8 → Option (Nat × Option Nat)
  | [] => none
  | b :: rest =>
    let after := (decodeChar b rest).2
    let width := rest.length + 1 - after.length
    if (b :: rest).take width == encodeChar (decodeChar b rest).1 then
      flawFrom? (index + width) (decodeChar b rest).2
    else
      let promised := ((lead? b.toNat).map fun l => l.tails + 1).getD 1
      some (index, if after.isEmpty && width < promised then none else some width)
termination_by octets => octets.length
decreasing_by exact Nat.lt_succ_of_le (decodeChar_length_le b rest)

/-- The first octets that write no character. -/
def flaw? (octets : List UInt8) : Option (Nat × Option Nat) :=
  flawFrom? 0 octets

/-- The characters of any octets. -/
def decode : List UInt8 → List Char
  | [] => []
  | b :: rest => (decodeChar b rest).1 :: decode (decodeChar b rest).2
termination_by octets => octets.length
decreasing_by exact Nat.lt_succ_of_le (decodeChar_length_le b rest)

end ResourceAtlas.Text.Utf8
