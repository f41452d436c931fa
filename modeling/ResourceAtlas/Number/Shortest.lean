import ResourceAtlas.Number.Binary64

/-!
# The shortest decimal text of a binary number

`shortest` finds the fewest digits that read back as the same number, and among equally short ones
the nearest. `text` writes them: positional from 10⁻⁴ up to below 10¹⁶, with `.0` after a whole
number, and otherwise with an exponent of a sign and at least two digits.
-/

namespace ResourceAtlas.Number.Shortest

open Binary64

/-- How many times ten takes a count below one up to one, searched for with fuel. -/
def scaleUp : Nat → Nat → Nat
  | 0, _ => 0
  | fuel + 1, units => if one ≤ units then 0 else scaleUp fuel (units * 10) + 1

/-- The exponent of the first decimal digit of a positive count of units. -/
def leadingExponent (units : Nat) : Int :=
  if one ≤ units then (Nat.toDigits 10 (units / one)).length - 1
  else -(scaleUp 400 units : Int)

/-- The numbers that read back as one number: all between two bounds, in half units. -/
structure Interval where
  /-- Twice the lower bound. -/
  low : Nat
  /-- Twice the upper bound. -/
  high : Nat
  /-- Whether the bounds themselves read back as the number. -/
  closed : Bool

/-- The numbers that round to a positive count of units. -/
def interval (units : Nat) : Interval :=
  let s := spareBits units
  let above := Nat.pow 2 s
  let below := if units = Nat.pow 2 (s + 52) ∧ 0 < s then Nat.pow 2 (s - 1) else above
  ⟨2 * units - below, 2 * units + above, units / Nat.pow 2 s % 2 == 0⟩

/-- Whether `num / den` units read back as the number of an interval. -/
def Interval.holds (i : Interval) (num den : Nat) : Bool :=
  if i.closed then i.low * den ≤ 2 * num && 2 * num ≤ i.high * den
  else i.low * den < 2 * num && 2 * num < i.high * den

/-- The digits on the grid of multiples of `10 ^ exponent` that read back, if some do. -/
def onGrid? (units : Nat) (exponent : Int) : Option Nat :=
  let up := Nat.pow 10 (-exponent).toNat
  let cell := one * Nat.pow 10 exponent.toNat
  let q := units * up / cell
  let i := interval units
  match i.holds (q * cell) up, i.holds ((q + 1) * cell) up with
  | true, true => some (roundHalfEven (units * up) cell)
  | true, false => some q
  | false, true => some (q + 1)
  | false, false => none

/-- Search the grids of `count` digits and more, with fuel for the finer ones. -/
def search (units : Nat) (leading : Int) : Nat → Nat → Nat × Int
  | 0, count =>
    let exponent := leading - count + 1
    (units * Nat.pow 10 (-exponent).toNat / (one * Nat.pow 10 exponent.toNat), exponent)
  | fuel + 1, count =>
    let exponent := leading - count + 1
    match onGrid? units exponent with
    | some digits => (digits, exponent)
    | none => search units leading fuel (count + 1)

/-- The coefficient and the exponent of the shortest decimal for a positive count of units. -/
def shortest (units : Nat) : Nat × Int :=
  search units (leadingExponent units) 17 1

/-- A digit string without the zeros that end it. -/
def dropTrailingZeros (digits : List Char) : List Char :=
  (digits.reverse.dropWhile (· = '0')).reverse

/-- The digits of an exponent, at least two. -/
def exponentDigits (n : Nat) : List Char :=
  if n < 10 then '0' :: Nat.toDigits 10 n else Nat.toDigits 10 n

/-- Digits with the decimal point behind the first `point` of them. -/
def positional (digits : List Char) (point : Int) : List Char :=
  if point ≤ 0 then '0' :: '.' :: List.replicate (-point).toNat '0' ++ digits
  else
    let n := point.toNat
    if digits.length ≤ n then digits ++ List.replicate (n - digits.length) '0' ++ ['.', '0']
    else digits.take n ++ '.' :: digits.drop n

/-- One digit, a point before the others, and the exponent. -/
def scientific (digits : List Char) (exponent : Int) : List Char :=
  let tail := match digits.drop 1 with
    | [] => []
    | rest => '.' :: rest
  digits.take 1 ++ tail ++ 'e' :: (if exponent < 0 then '-' else '+') ::
    exponentDigits exponent.natAbs

/-- The text of a positive count of units. -/
def unitsText (units : Nat) : List Char :=
  let (coefficient, exponent) := shortest units
  let all := Nat.toDigits 10 coefficient
  let digits := dropTrailingZeros all
  let point := exponent + all.length
  if -4 < point ∧ point ≤ 16 then positional digits point else scientific digits (point - 1)

/-- The text of a number. -/
def text : Binary64 → List Char
  | .nan => ['n', 'a', 'n']
  | .infinite s => (if s then ['-'] else []) ++ ['i', 'n', 'f']
  | .finite s u =>
    (if s then ['-'] else []) ++ if u = 0 then ['0', '.', '0'] else unitsText u

end ResourceAtlas.Number.Shortest
