import ResourceAtlas.Calendar.Moment
import ResourceAtlas.Text.Utf8

/-!
# Reading dates and times

The date is written with hyphens or without, by month and day or by week; any one character
separates it from the time. The time is hours with optional minutes, seconds and fraction, with
colons or without, and an optional offset. One stray octet is passed over before an offset.
-/

namespace ResourceAtlas.Calendar.Reading

open Text

/-- The value of a decimal digit written in one octet. -/
def digit? (b : UInt8) : Option Nat :=
  if 0x30 ≤ b.toNat ∧ b.toNat ≤ 0x39 then some (b.toNat - 0x30) else none

/-- Read exactly `count` digits on from a number. -/
def digits? : Nat → Nat → List UInt8 → Option (Nat × List UInt8)
  | 0, n, rest => some (n, rest)
  | _ + 1, _, [] => none
  | count + 1, n, b :: rest =>
    match digit? b with
    | some d => digits? count (10 * n + d) rest
    | none => none

/-- The octet at the start of a text, zero at the end. -/
def head (text : List UInt8) : UInt8 :=
  text.headD 0

/-- The octet of a character of the basic alphabet. -/
def octet (c : Char) : UInt8 :=
  UInt8.ofNat c.toNat

/-- How many digits a text starts with. -/
def leadingDigits (text : List UInt8) : Nat :=
  (text.takeWhile fun b => (digit? b).isSome).length

/-- Where the separator between date and time stands. -/
def separatorIndex? (text : List UInt8) : Option Nat :=
  let at' := fun i => text.getD i 0
  if text.length = 7 then some 7
  else if at' 4 = octet '-' then
    if at' 5 = octet 'W' then
      if text.length < 8 then none
      else if 8 < text.length ∧ at' 8 = octet '-' then
        if text.length = 9 then none
        else if 10 < text.length ∧ (digit? (at' 10)).isSome then some 8
        else some 10
      else some 8
    else some 10
  else if at' 4 = octet 'W' then
    let pos := 7 + leadingDigits (text.drop 7)
    if pos < 9 then some pos
    else if pos % 2 = 0 then some 7
    else some 8
  else some 8

/-- Drop a hyphen where the date is written with hyphens. -/
def hyphen? (hyphens : Bool) (text : List UInt8) : Option (List UInt8) :=
  if hyphens then if head text = octet '-' then some (text.drop 1) else none
  else some text

/-- The date at the start of a text, of which `length` octets belong to the date. -/
def date? (length : Nat) (text : List UInt8) : Option Date := do
  let (year, rest) ← digits? 4 0 text
  let hyphens := head rest == octet '-'
  let rest := if hyphens then rest.drop 1 else rest
  if head rest = octet 'W' then
    let (week, rest) ← digits? 2 0 (rest.drop 1)
    if text.length - rest.length < length then
      let rest ← hyphen? hyphens rest
      let (day, _) ← digits? 1 0 rest
      Date.ofWeek? year week day
    else Date.ofWeek? year week 1
  else
    let (month, rest) ← digits? 2 0 rest
    let rest ← hyphen? hyphens rest
    let (day, _) ← digits? 2 0 rest
    let date : Date := ⟨year, month, day⟩
    if date.isValid then some date else none

/-- The fields of a clock time and whether more text follows them. -/
structure Clock where
  /-- Hours. -/
  hour : Nat
  /-- Minutes. -/
  minute : Nat
  /-- Seconds. -/
  second : Nat
  /-- Microseconds. -/
  microsecond : Nat
  /-- Whether text is left over. -/
  more : Bool

/-- The fraction of a second at the start of a text, of which `length` octets belong to it. -/
def fraction? (length : Nat) (text : List UInt8) : Option (Nat × Bool) := do
  let count := min length 6
  let (n, rest) ← digits? count 0 text
  let rest := rest.drop (leadingDigits rest)
  some (n * Nat.pow 10 (6 - count), head rest != 0)

/-- Read up to three pairs of digits and a fraction. The first field decides whether colons stand
between the pairs; the fields read so far come nearest first. -/
def fields? : Nat → Bool → List Nat → Nat → List UInt8 → Option (List Nat × Nat × Bool)
  | 0, _, fields, length, text => do
    let (n, more) ← fraction? length text
    some (fields, n, more)
  | pairs + 1, colons, fields, length, text => do
    let (n, rest) ← digits? 2 0 text
    let colons := if fields.isEmpty then head rest == octet ':' else colons
    let fields := n :: fields
    if length ≤ 3 then some (fields, 0, head rest != 0)
    else if colons && head rest == octet ':' then
      fields? pairs colons fields (length - 3) (rest.drop 1)
    else if head rest == octet '.' || head rest == octet ',' then
      let (n, more) ← fraction? (length - 3) (rest.drop 1)
      some (fields, n, more)
    else if !colons then fields? pairs colons fields (length - 2) rest
    else none

/-- The clock time at the start of a text, of which `length` octets belong to it. -/
def clock? (length : Nat) (text : List UInt8) : Option Clock := do
  let (fields, microsecond, more) ← fields? 3 true [] length text
  let fields := fields.reverse
  some ⟨fields.getD 0 0, fields.getD 1 0, fields.getD 2 0, microsecond, more⟩

/-- An octet that starts an offset. -/
def startsOffset (b : UInt8) : Bool :=
  b == octet '+' || b == octet '-' || b == octet 'Z'

/-- The offset after its sign. -/
def offset? (negative : Bool) (text : List UInt8) : Option Int := do
  let c ← clock? text.length text
  if c.more then none
  else
    let seconds := c.hour * 3600 + c.minute * 60 + c.second
    let n := if seconds = 0 then 0 else seconds * 1000000 + c.microsecond
    if n < Moment.dayLength then some (if negative then -(n : Int) else n) else none

/-- A moment from its date and the text of its time. -/
def moment? (date : Date) (text : List UInt8) : Option Moment := do
  let tail := text.dropWhile fun b => !startsOffset b
  let c ← clock? (text.length - tail.length) text
  let offset ← match tail with
    | [] => if c.more then none else some none
    | sign :: rest =>
      if sign = octet 'Z' then if head rest = 0 then some (some 0) else none
      else (offset? (sign == octet '-') rest).map some
  let m : Moment := ⟨date, c.hour, c.minute, c.second, c.microsecond, offset⟩
  if m.isValid then some m else none

/-- How many octets the character that an octet starts takes. -/
def width (b : UInt8) : Nat :=
  if b.toNat < 0x80 then 1
  else if b.toNat / 16 = 0xE then 3
  else if b.toNat / 16 = 0xF then 4
  else 2

/-- The moment that a text writes; a date alone is its midnight. -/
def read? (text : List Char) : Option Moment := do
  let octets := Utf8.encode text
  if octets.length < 7 then none
  else
    let index ← separatorIndex? octets
    let date ← date? index octets
    match octets.drop index with
    | [] => some ⟨date, 0, 0, 0, 0, none⟩
    | b :: _ => moment? date (octets.drop (index + width b))

/-- The date that a text of year, month and day writes. -/
def readDate? (text : List Char) : Option Date :=
  let octets := Utf8.encode text
  if octets.length = 7 ∨ octets.length = 8 ∨ octets.length = 10 then
    date? octets.length octets
  else none

end ResourceAtlas.Calendar.Reading
