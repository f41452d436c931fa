/-!
# Labels in the basic alphabet

A label of a domain that holds other characters is written in the basic alphabet: the characters
of that alphabet come first, and behind them numbers that tell, in ascending order of the others,
where each one stands. A number has digits of a base that changes with its place and with how great
the numbers before it were.
-/

namespace ResourceAtlas.Link.Punycode

/-- The character of a digit: the letters come first. -/
def digit (d : Nat) : Char :=
  if d < 26 then Char.ofNat (0x61 + d) else Char.ofNat (0x30 + (d - 26))

/-- The least digit at a place behind which another digit follows. -/
def threshold (place bias : Nat) : Nat :=
  min 26 (max 1 (place - bias))

/-- A number in digits from a place on. -/
def number (bias place n : Nat) : List Char :=
  if n < threshold place bias then [digit n]
  else
    let t := threshold place bias
    digit (t + (n - t) % (36 - t)) :: number bias (place + 36) ((n - t) / (36 - t))
termination_by n
decreasing_by
  have least : 1 ≤ threshold place bias := by unfold threshold; omega
  calc (n - threshold place bias) / (36 - threshold place bias)
      ≤ n - threshold place bias := Nat.div_le_self _ _
    _ < n := by omega

/-- The bias after a number that was brought down to its scale. -/
def scaled (place n : Nat) : Nat :=
  if 455 < n then scaled (place + 36) (n / 35) else place + 36 * n / (n + 38)
termination_by n
decreasing_by exact Nat.div_lt_self (by omega) (by omega)

/-- The bias after the number that wrote one of a count of characters. -/
def adapt (n count : Nat) (first : Bool) : Nat :=
  let part := n / if first then 700 else 2
  scaled 0 (part + part / count)

/-- A label in the making. -/
structure Progress where
  /-- What is written. -/
  written : List Char
  /-- How far the next character is from the last one that was written. -/
  distance : Nat
  /-- The bias of the next number. -/
  bias : Nat
  /-- How many characters are written. -/
  count : Nat

/-- Pass a character of a label by, or write where it stands if it is the wanted one. -/
def visit (basic wanted : Nat) (p : Progress) (c : Char) : Progress :=
  if c.toNat < wanted then { p with distance := p.distance + 1 }
  else if c.toNat = wanted then
    { written := p.written ++ number p.bias 36 p.distance
      distance := 0
      bias := adapt p.distance (p.count + 1) (p.count == basic)
      count := p.count + 1 }
  else p

/-- Write where the characters of ascending code points stand. -/
def visitAll (label : List Char) (basic next : Nat) (p : Progress) : List Nat → Progress
  | [] => p
  | wanted :: rest =>
    let p := { p with distance := p.distance + (wanted - next) * (p.count + 1) }
    let p := label.foldl (visit basic wanted) p
    visitAll label basic (wanted + 1) { p with distance := p.distance + 1 } rest

/-- A label in the basic alphabet. -/
def encode (label : List Char) : List Char :=
  let basic := label.filter fun c => c.toNat < 0x80
  let others := ((label.map Char.toNat).filter (0x80 ≤ ·)).mergeSort.eraseDups
  let start : Progress := ⟨[], 0, 72, basic.length⟩
  let p := visitAll label basic.length 0x80 start others
  basic ++ (if basic.isEmpty then [] else ['-']) ++ p.written

/-- A label as a domain holds it. -/
def label (text : List Char) : List Char :=
  if text.all fun c => c.toNat < 0x80 then text else "xn--".toList ++ encode text

end ResourceAtlas.Link.Punycode
