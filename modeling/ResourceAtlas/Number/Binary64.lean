/-!
# Binary floating-point numbers

A finite number is a whole count of the least positive number, 2⁻¹⁰⁷⁴, with a sign. `ofRatio` is the
one rounding rule: a ratio goes to the nearest count that has at most 53 significant bits, an exact
tie to the one whose last bit is zero. Order and arithmetic work on exact counts.
-/

namespace ResourceAtlas.Number

/-- A binary floating-point number of 64 bits. -/
inductive Binary64
  /-- No number. -/
  | nan
  /-- Beyond every finite number. -/
  | infinite (negative : Bool)
  /-- A count of units of 2⁻¹⁰⁷⁴, so that zero has a sign too. -/
  | finite (negative : Bool) (units : Nat)
  deriving DecidableEq, Repr, Inhabited

namespace Binary64

/-- How many units make one. -/
def one : Nat := Nat.pow 2 1074

/-- The least count that no finite number reaches. -/
def limit : Nat := Nat.pow 2 2098

/-- The quotient nearest to a ratio, a tie going to the even one. -/
def roundHalfEven (num den : Nat) : Nat :=
  let q := num / den
  let r := num % den
  if 2 * r < den then q
  else if den < 2 * r then q + 1
  else if q % 2 = 0 then q
  else q + 1

/-- How many low bits a count of this size has to leave zero. -/
def spareBits (units : Nat) : Nat :=
  Nat.log2 units - 52

/-- The count nearest to a ratio of units among those with at most 53 significant bits. -/
def roundUnits (num den : Nat) : Nat :=
  let s := spareBits (num / den)
  roundHalfEven num (den * Nat.pow 2 s) * Nat.pow 2 s

/-- The number nearest to a ratio of units. -/
def ofUnits (negative : Bool) (num den : Nat) : Binary64 :=
  let units := roundUnits num den
  if limit ≤ units then infinite negative else finite negative units

/-- The number nearest to a ratio. -/
def ofRatio (negative : Bool) (num den : Nat) : Binary64 :=
  ofUnits negative (num * one) den

/-- Positive zero. -/
def zero : Binary64 := finite false 0

/-- The number nearest to an integer, infinite when the integer is out of range. -/
def ofInt (n : Int) : Binary64 :=
  ofRatio (decide (n < 0)) n.natAbs 1

/-- The number nearest to `coefficient · 10 ^ exponent`. -/
def ofDecimal (negative : Bool) (coefficient : Nat) (exponent : Int) : Binary64 :=
  if coefficient = 0 then finite negative 0
  else
    let magnitude := (Nat.toDigits 10 coefficient).length + exponent
    if 310 < magnitude then infinite negative
    else if magnitude < -330 then finite negative 0
    else if 0 ≤ exponent then ofRatio negative (coefficient * Nat.pow 10 exponent.toNat) 1
    else ofRatio negative coefficient (Nat.pow 10 (-exponent).toNat)

/-- A count with its sign. -/
def signed (negative : Bool) (units : Nat) : Int :=
  if negative then -(units : Int) else units

/-- The first number is below the second; nothing is below or above `nan`. -/
def lt : Binary64 → Binary64 → Bool
  | nan, _ => false
  | _, nan => false
  | infinite s, infinite t => s && !t
  | infinite s, finite _ _ => s
  | finite _ _, infinite t => !t
  | finite s u, finite t v => decide (signed s u < signed t v)

/-- The numbers are equal; the zeros are, and `nan` equals nothing. -/
def equal : Binary64 → Binary64 → Bool
  | infinite s, infinite t => s == t
  | finite s u, finite t v => decide (signed s u = signed t v)
  | _, _ => false

/-- An exact integer is below a number. -/
def intLt (n : Int) : Binary64 → Bool
  | nan => false
  | infinite s => !s
  | finite s u => decide (n * one < signed s u)

/-- A number is below an exact integer. -/
def ltInt : Binary64 → Int → Bool
  | nan, _ => false
  | infinite s, _ => s
  | finite s u, n => decide (signed s u < n * one)

/-- A number equals an exact integer. -/
def equalInt : Binary64 → Int → Bool
  | finite s u, n => decide (signed s u = n * one)
  | _, _ => false

/-- The integer that a number is, if it is one. -/
def toInt? : Binary64 → Option Int
  | finite s u => if u % one = 0 then some (signed s (u / one)) else none
  | _ => none

/-- Any number but the zeros; `nan` counts. -/
def isNonzero : Binary64 → Bool
  | finite _ u => u != 0
  | _ => true

/-- Neither an infinity nor `nan`. -/
def isFinite : Binary64 → Bool
  | finite _ _ => true
  | _ => false

/-- The sum, rounded once. -/
def add : Binary64 → Binary64 → Binary64
  | nan, _ => nan
  | _, nan => nan
  | infinite s, infinite t => if s = t then infinite s else nan
  | infinite s, finite _ _ => infinite s
  | finite _ _, infinite t => infinite t
  | finite s u, finite t v =>
    let total := signed s u + signed t v
    if total = 0 then finite (s && t) 0
    else ofUnits (decide (total < 0)) total.natAbs 1

/-- The product, rounded once. -/
def mul : Binary64 → Binary64 → Binary64
  | nan, _ => nan
  | _, nan => nan
  | infinite s, infinite t => infinite (s != t)
  | infinite s, finite t v => if v = 0 then nan else infinite (s != t)
  | finite s u, infinite t => if u = 0 then nan else infinite (s != t)
  | finite s u, finite t v => ofUnits (s != t) (u * v) one

/-- The quotient by a positive whole number, rounded once. -/
def divNat : Binary64 → Nat → Binary64
  | nan, _ => nan
  | infinite s, _ => infinite s
  | finite s u, n => ofUnits s u n

/-- The nearest number with that many decimal places, the exact value's ties going to even. -/
def roundPlaces (places : Nat) : Binary64 → Binary64
  | finite s u => ofRatio s (roundHalfEven (u * Nat.pow 10 places) one) (Nat.pow 10 places)
  | x => x

end Binary64

end ResourceAtlas.Number
