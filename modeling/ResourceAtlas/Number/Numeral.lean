import ResourceAtlas.Text.Blank
import ResourceAtlas.Text.Digit
import ResourceAtlas.Text.Split
import ResourceAtlas.Number.Binary64

/-!
# Reading and writing numerals

Digits of any script are read. Integers of more than `maxDigits` digits are neither read nor
written; `readInt` looks at the underscores first, then counts the digits, and looks last at what
follows them.
-/

namespace ResourceAtlas.Number.Numeral

open Text

/-- The most digits that an integer is read or written with. -/
def maxDigits : Nat := 4300

/-- Why a text was not read as an integer. -/
inductive Refusal
  /-- The text is no numeral. -/
  | malformed
  /-- The numeral has too many digits. -/
  | tooLong (digits : Nat)
  deriving DecidableEq, Repr

/-- The number that digits write, read on from the number before them. -/
def digitsValue (start : Nat) (digits : List Char) : Nat :=
  digits.foldl (fun n c => 10 * n + (Digit.value? c).getD 0) start

/-- The value of a text that `Digit.isInteger` accepts, unless it is too long. -/
def integerValue (text : List Char) : Except Refusal Int :=
  let digits := Digit.dropFinalLineFeed (Digit.dropMinus text)
  if maxDigits < digits.length then .error (.tooLong digits.length)
  else
    let n := digitsValue 0 digits
    .ok (if Digit.isNegative text then -(n : Int) else n)

/-- The text of a natural number. -/
def natText (n : Nat) : List Char :=
  Nat.toDigits 10 n

/-- The text of an integer, unless it has too many digits. -/
def intText? (n : Int) : Option (List Char) :=
  let digits := natText n.natAbs
  if maxDigits < digits.length then none
  else some (if n < 0 then '-' :: digits else digits)

/-- The sign that starts a text and the rest. -/
def takeSign : List Char → Bool × List Char
  | '-' :: rest => (true, rest)
  | '+' :: rest => (false, rest)
  | text => (false, text)

/-- Digits that go on after a digit, each with at most one underscore before it, and the rest. -/
def takeDigits : List Char → List Char × List Char
  | [] => ([], [])
  | '_' :: c :: rest =>
    if Digit.isDigit c then
      let (digits, after) := takeDigits rest
      (c :: digits, after)
    else ([], '_' :: c :: rest)
  | c :: rest =>
    if Digit.isDigit c then
      let (digits, after) := takeDigits rest
      (c :: digits, after)
    else ([], c :: rest)

/-- Digits at the start of a text, single underscores between them left out, and the rest. -/
def takeNumber : List Char → List Char × List Char
  | [] => ([], [])
  | c :: rest =>
    if Digit.isDigit c then
      let (digits, after) := takeDigits rest
      (c :: digits, after)
    else ([], c :: rest)

/-- A character of an integer: a digit or an underscore. -/
def isOfInteger (c : Char) : Bool :=
  c == '_' || Digit.isDigit c

/-- Whether every underscore stands between two digits. -/
def isWellSpaced (numeral : List Char) : Bool :=
  (Split.every '_' numeral).all fun part => !part.isEmpty

/-- Read an integer: blanks around it, an optional sign, digits with single underscores. -/
def readInt (text : List Char) : Except Refusal Int :=
  let (negative, body) := takeSign (Blank.trimOf Blank.isNumberBlank text)
  let numeral := body.takeWhile isOfInteger
  let digits := numeral.filter (· != '_')
  if !isWellSpaced numeral then .error .malformed
  else if maxDigits < digits.length then .error (.tooLong digits.length)
  else if !(body.dropWhile isOfInteger).isEmpty then .error .malformed
  else
    let n := digitsValue 0 digits
    .ok (if negative then -(n : Int) else n)

/-- A letter of the basic alphabet in lower case. -/
def lowerLetter (c : Char) : Char :=
  if 'A' ≤ c ∧ c ≤ 'Z' then Char.ofNat (c.toNat + 32) else c

/-- The words that write a number without digits. -/
def readWord? (negative : Bool) (text : List Char) : Option Binary64 :=
  let word := text.map lowerLetter
  if word = "inf".toList || word = "infinity".toList then some (.infinite negative)
  else if word = "nan".toList then some .nan
  else none

/-- The exponent after the digits of a decimal; the empty text is no exponent. -/
def readExponent? : List Char → Option Int
  | [] => some 0
  | e :: rest =>
    if e = 'e' || e = 'E' then
      let (negative, body) := takeSign rest
      let (digits, after) := takeNumber body
      if digits.isEmpty || !after.isEmpty then none
      else
        let n := digitsValue 0 digits
        some (if negative then -(n : Int) else n)
    else none

/-- Read a decimal with an optional fraction and exponent, or a word for infinity or no number. -/
def readFloat? (text : List Char) : Option Binary64 :=
  let (negative, body) := takeSign (Blank.trimOf Blank.isNumberBlank text)
  match readWord? negative body with
  | some x => some x
  | none =>
    let (whole, rest) := takeNumber body
    let (fraction, tail) := match rest with
      | '.' :: after => takeNumber after
      | _ => ([], rest)
    if whole.isEmpty && fraction.isEmpty then none
    else
      (readExponent? tail).map fun e =>
        .ofDecimal negative (digitsValue 0 (whole ++ fraction)) (e - fraction.length)

end ResourceAtlas.Number.Numeral
