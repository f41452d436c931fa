import ResourceAtlas.Fault
import ResourceAtlas.Number.Numeral
import ResourceAtlas.Text.Percent
import ResourceAtlas.Value.Basic

/-!
# Reading JSON

One value with blanks around it. Beside JSON's own forms the words `NaN`, `Infinity` and
`-Infinity` are read. Of two entries under one key the later counts, in the place of the earlier.
What cannot be read is reported with the place where reading stopped.
-/

namespace ResourceAtlas.Json

open Number Text

/-- What is left of a text, with the number of characters before it. -/
structure Rest where
  /-- The number of characters read. -/
  position : Nat
  /-- The characters to read. -/
  text : List Char
  deriving Repr

/-- Pass over characters. -/
def Rest.drop (r : Rest) (count : Nat) : Rest :=
  ⟨r.position + count, r.text.drop count⟩

/-- Why a text could not be read. -/
inductive Malformed
  /-- A message about a place. -/
  | at (message : String) (position : Nat)
  /-- An integer with too many digits. -/
  | tooManyDigits (digits : Nat)
  /-- A container inside too many others. -/
  | tooDeep (container : String)
  deriving Repr

/-- The result of reading on. -/
abbrev Reading (α : Type) := Except Malformed (α × Rest)

/-- A blank between the parts of a value. -/
def isBlank (c : Char) : Bool :=
  c == ' ' || c == '\t' || c == '\n' || c == '\r'

/-- Pass over blanks. -/
def skipBlanks (r : Rest) : Rest :=
  r.drop (r.text.takeWhile isBlank).length

/-- The character that a letter after a backslash stands for. -/
def shortEscape? (c : Char) : Option Char :=
  if c = '"' || c = '\\' || c = '/' then some c
  else if c = 'b' then some (Char.ofNat 0x8)
  else if c = 'f' then some (Char.ofNat 0xC)
  else if c = 'n' then some '\n'
  else if c = 'r' then some '\r'
  else if c = 't' then some '\t'
  else none

/-- The number that four hexadecimal digits write. -/
def unit? : List Char → Option Nat
  | a :: b :: c :: d :: _ => do
    let a ← Percent.hexValue? a
    let b ← Percent.hexValue? b
    let c ← Percent.hexValue? c
    let d ← Percent.hexValue? d
    some (((a * 16 + b) * 16 + c) * 16 + d)
  | _ => none

/-- The first of two code units of one character. -/
def isHigh (n : Nat) : Bool := 0xD800 ≤ n && n ≤ 0xDBFF

/-- The second of two code units of one character. -/
def isLow (n : Nat) : Bool := 0xDC00 ≤ n && n ≤ 0xDFFF

/-- The character of a code unit; a unit that is half a character has none of its own. -/
def unitChar (n : Nat) : Char :=
  if isHigh n || isLow n then Char.ofNat 0xFFFD else Char.ofNat n

/-- The message about a bad escape of a code unit. -/
def badUnit : String := "Invalid \\uXXXX escape"

/-- Read a code unit after the letter of its escape; `r` starts at that letter. -/
def readUnit (r : Rest) : Except Malformed Nat :=
  match if r.text.length ≤ 5 then none else unit? (r.text.drop 1) with
  | some n => .ok n
  | none => .error (.at badUnit r.position)

/-- Read the character of an escaped code unit, or of two; `r` starts at the letter. -/
def readEscapedUnit (r : Rest) : Reading Char :=
  match readUnit r with
  | .error e => .error e
  | .ok high =>
    let after := r.drop 5
    match after.text with
    | '\\' :: 'u' :: digits =>
      if isHigh high && 5 ≤ digits.length then
        match unit? digits with
        | none => .error (.at badUnit (after.position + 1))
        | some low =>
          if isLow low then
            .ok (Char.ofNat (0x10000 + (high - 0xD800) * 0x400 + (low - 0xDC00)), after.drop 6)
          else .ok (unitChar high, after)
      else .ok (unitChar high, after)
    | _ => .ok (unitChar high, after)

/-- Read the characters of a text up to its closing quote. `start` is the place of the opening
quote, and the characters read so far come nearest first. -/
def readCharacters (start : Nat) : Nat → List Char → Rest → Reading String
  | 0, _, _ => .error (.at "Unterminated string starting at" start)
  | fuel + 1, before, r =>
    match r.text with
    | [] => .error (.at "Unterminated string starting at" start)
    | '"' :: _ => .ok (String.ofList before.reverse, r.drop 1)
    | '\\' :: [] => .error (.at "Unterminated string starting at" start)
    | '\\' :: 'u' :: _ =>
      match readEscapedUnit (r.drop 1) with
      | .error e => .error e
      | .ok (c, rest) => readCharacters start fuel (c :: before) rest
    | '\\' :: e :: _ =>
      match shortEscape? e with
      | some c => readCharacters start fuel (c :: before) (r.drop 2)
      | none => .error (.at "Invalid \\escape" r.position)
    | c :: _ =>
      if c.toNat < 0x20 then .error (.at "Invalid control character at" r.position)
      else readCharacters start fuel (c :: before) (r.drop 1)

/-- Read a text; `r` starts after its opening quote. -/
def readText (r : Rest) : Reading String :=
  readCharacters (r.position - 1) (r.text.length + 1) [] r

/-- A digit of a number. -/
def isDigit (c : Char) : Bool := '0' ≤ c && c ≤ '9'

/-- The digits at the start of a text. -/
def digits (text : List Char) : List Char := text.takeWhile isDigit

/-- The fraction at the start of a text: a point with digits, or nothing. -/
def fraction (text : List Char) : List Char :=
  match text with
  | '.' :: rest => if (digits rest).isEmpty then [] else '.' :: digits rest
  | _ => []

/-- The exponent at the start of a text: a letter, a sign or none, and digits; or nothing. -/
def exponent (text : List Char) : List Char :=
  match text with
  | e :: rest =>
    if e = 'e' || e = 'E' then
      let sign := rest.take (if rest.head? = some '+' ∨ rest.head? = some '-' then 1 else 0)
      let body := digits (rest.drop sign.length)
      if body.isEmpty then [] else e :: sign ++ body
    else []
  | [] => []

/-- The digits of a whole number at the start of a text; a zero stands alone. -/
def wholeDigits (text : List Char) : List Char :=
  match text with
  | '0' :: _ => ['0']
  | text => digits text

/-- Read a number. -/
def readNumber (r : Rest) : Reading Value :=
  let sign := r.text.take (if r.text.head? = some '-' then 1 else 0)
  let whole := wholeDigits (r.text.drop sign.length)
  if whole.isEmpty then .error (.at "Expecting value" r.position)
  else
    let body := sign ++ whole
    let point := fraction (r.text.drop body.length)
    let power := exponent (r.text.drop (body.length + point.length))
    let rest := r.drop (body.length + point.length + power.length)
    if point.isEmpty && power.isEmpty then
      if Numeral.maxDigits < whole.length then .error (.tooManyDigits whole.length)
      else
        let n := Numeral.digitsValue 0 whole
        .ok (.int (if sign.isEmpty then n else -(n : Int)), rest)
    else .ok (.float ((Numeral.readFloat? (body ++ point ++ power)).getD .nan), rest)

/-- The words that stand for values. -/
def words : List (String × Value) :=
  [("null", .null), ("true", .bool true), ("false", .bool false), ("NaN", .float .nan),
    ("Infinity", .float (.infinite false)), ("-Infinity", .float (.infinite true))]

/-- The word at the start of a text, with its value. -/
def word? (text : List Char) : Option (String × Value) :=
  words.find? fun w => w.1.toList.isPrefixOf text

/-- Go on at a character that has to come. -/
def expect (c : Char) (message : String) (r : Rest) : Except Malformed Rest :=
  if r.text.head? = some c then .ok (r.drop 1) else .error (.at message r.position)

/-- How many containers may lie inside each other. -/
def deepest : Nat := 970

mutual

/-- Read a value. The second number tells how many containers may still lie inside each other. -/
def readValue : Nat → Nat → Rest → Reading Value
  | 0, _, r => .error (.at "Expecting value" r.position)
  | fuel + 1, levels, r =>
    match r.text with
    | [] => .error (.at "Expecting value" r.position)
    | '"' :: _ => (readText (r.drop 1)).map fun p => (.text p.1, p.2)
    | '[' :: _ =>
      let r := skipBlanks (r.drop 1)
      if levels = 0 then .error (.tooDeep "array")
      else if r.text.head? = some ']' then .ok (.list [], r.drop 1)
      else (readMembers fuel (levels - 1) [] r).map fun p => (.list p.1, p.2)
    | '\x7b' :: _ =>
      let r := skipBlanks (r.drop 1)
      if levels = 0 then .error (.tooDeep "object")
      else if r.text.head? = some '\x7d' then .ok (.mapping [], r.drop 1)
      else (readEntries fuel (levels - 1) [] r).map fun p => (.mapping p.1, p.2)
    | text =>
      match word? text with
      | some (w, v) => .ok (v, r.drop w.length)
      | none => readNumber r

/-- Read the members of an array up to its closing bracket; those read so far come nearest first. -/
def readMembers : Nat → Nat → List Value → Rest → Except Malformed (List Value × Rest)
  | 0, _, _, r => .error (.at "Expecting value" r.position)
  | fuel + 1, levels, before, r => do
    let (v, r) ← readValue fuel levels r
    let r := skipBlanks r
    if r.text.head? = some ']' then .ok ((v :: before).reverse, r.drop 1)
    else do
      let r ← expect ',' "Expecting ',' delimiter" r
      readMembers fuel levels (v :: before) (skipBlanks r)

/-- Read the entries of an object up to its closing brace. -/
def readEntries : Nat → Nat → Keyed Value → Rest → Except Malformed (Keyed Value × Rest)
  | 0, _, _, r => .error (.at "Expecting value" r.position)
  | fuel + 1, levels, before, r => do
    let r ← expect '"' "Expecting property name enclosed in double quotes" r
    let (key, r) ← readText r
    let r ← expect ':' "Expecting ':' delimiter" (skipBlanks r)
    let (v, r) ← readValue fuel levels (skipBlanks r)
    let entries := Keyed.put key v before
    let r := skipBlanks r
    if r.text.head? = some '\x7d' then .ok (entries, r.drop 1)
    else do
      let r ← expect ',' "Expecting ',' delimiter" r
      readEntries fuel levels entries (skipBlanks r)

end

/-- Read a whole text. -/
def readWhole (text : List Char) : Except Malformed Value := do
  if text.head? = some (Char.ofNat 0xFEFF) then
    throw (.at "Unexpected UTF-8 BOM (decode using utf-8-sig)" 0)
  let (v, r) ← readValue (2 * text.length + 2) deepest (skipBlanks ⟨0, text⟩)
  let r := skipBlanks r
  if r.text.isEmpty then .ok v else .error (.at "Extra data" r.position)

/-- A message with the line and the column of a place. -/
def locatedMessage (message : String) (text : List Char) (position : Nat) : String :=
  let before := text.take position
  let line := before.countP (· == '\n') + 1
  let column := (before.reverse.takeWhile (· != '\n')).length + 1
  message ++ ": line " ++ toString line ++ " column " ++ toString column ++ " (char " ++
    toString position ++ ")"

/-- The value that a text writes. -/
def read (s : String) : Outcome Value :=
  match readWhole s.toList with
  | .ok v => .ok v
  | .error (.at message position) =>
    .error (.malformedData (locatedMessage message s.toList position))
  | .error (.tooManyDigits n) => .error (.tooManyDigits n)
  | .error (.tooDeep container) => .error (.nestedTooDeep container)

end ResourceAtlas.Json
