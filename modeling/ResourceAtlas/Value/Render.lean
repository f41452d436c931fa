import ResourceAtlas.Number.Numeral
import ResourceAtlas.Number.Shortest
import ResourceAtlas.Text.Quoted
import ResourceAtlas.Text.Split
import ResourceAtlas.Value.Basic

/-!
# The text of a value

`text?` is the plain text of a value and `quoted?` the form in which it stands inside another one,
with texts between quotes. Both are missing exactly when an integer inside has too many digits.
-/

namespace ResourceAtlas.Value

open Calendar Number Text

/-- The text of an integer, unless it has too many digits. -/
def intString? (n : Int) : Option String :=
  (Numeral.intText? n).map String.ofList

/-- The text of a floating-point number. -/
def floatString (x : Binary64) : String :=
  String.ofList (Shortest.text x)

/-- Numbers with a comma between each two. -/
def commaJoined (ns : List Nat) : String :=
  Split.join ", " (ns.map toString)

/-- The quoted form of a date. -/
def quotedDate (d : Date) : String :=
  "datetime.date(" ++ commaJoined [d.year, d.month, d.day] ++ ")"

/-- The quoted form of an offset: days, seconds and microseconds, those that are not zero. -/
def quotedOffset (offset : Int) : String :=
  if offset = 0 then "datetime.timezone.utc"
  else
    let seconds := offset.fdiv 1000000
    let parts := [("days", seconds.fdiv 86400), ("seconds", seconds.fmod 86400),
      ("microseconds", offset.fmod 1000000)]
    let shown := (parts.filter fun p => p.2 != 0).map fun p => p.1 ++ "=" ++ toString p.2
    "datetime.timezone(datetime.timedelta(" ++ Split.join ", " shown ++ "))"

/-- The quoted form of a moment: seconds and microseconds only as far as they are not zero. -/
def quotedMoment (m : Moment) : String :=
  let tail := if m.microsecond != 0 then [m.second, m.microsecond]
    else if m.second != 0 then [m.second] else []
  let zone := match m.offset with
    | none => ""
    | some offset => ", tzinfo=" ++ quotedOffset offset
  "datetime.datetime(" ++
    commaJoined ([m.date.year, m.date.month, m.date.day, m.hour, m.minute] ++ tail) ++ zone ++ ")"

/-- The quoted form of a value without members; the other kinds of value give the empty text. -/
def quotedLeaf? : Value → Option String
  | null => some "None"
  | bool b => some (if b then "True" else "False")
  | int n => intString? n
  | float x => some (floatString x)
  | text s => some (Quoted.string s)
  | bytes b => some (String.ofList (Quoted.octets b))
  | date d => some (quotedDate d)
  | moment m => some (quotedMoment m)
  | deferred _ => some "<function>"
  | _ => some ""

mutual

/-- The form of a value inside another one. -/
def quoted? : Value → Option String
  | list items => do
    let parts ← quotedAll? items
    some ("[" ++ Split.join ", " parts ++ "]")
  | tuple items => do
    let parts ← quotedAll? items
    match parts with
    | [one] => some ("(" ++ one ++ ",)")
    | _ => some ("(" ++ Split.join ", " parts ++ ")")
  | mapping entries => do
    let parts ← quotedEntries? entries
    some ("\x7b" ++ Split.join ", " (parts.map fun p => Quoted.string p.1 ++ ": " ++ p.2) ++ "\x7d")
  | table entries => do
    let parts ← quotedPairs? entries
    some ("\x7b" ++ Split.join ", " (parts.map fun p => p.1 ++ ": " ++ p.2) ++ "\x7d")
  | record entries => do
    let parts ← quotedEntries? entries
    some ("namespace(" ++ Split.join ", " (parts.map fun p => p.1 ++ "=" ++ p.2) ++ ")")
  | v => quotedLeaf? v

/-- The quoted forms of the members of a sequence. -/
def quotedAll? : List Value → Option (List String)
  | [] => some []
  | v :: rest => do
    let s ← quoted? v
    let more ← quotedAll? rest
    some (s :: more)

/-- The keys with the quoted forms of their values. -/
def quotedEntries? : List (String × Value) → Option (List (String × String))
  | [] => some []
  | (k, v) :: rest => do
    let s ← quoted? v
    let more ← quotedEntries? rest
    some ((k, s) :: more)

/-- The quoted forms of the keys and of their values. -/
def quotedPairs? : List (Value × Value) → Option (List (String × String))
  | [] => some []
  | (k, v) :: rest => do
    let name ← quoted? k
    let s ← quoted? v
    let more ← quotedPairs? rest
    some ((name, s) :: more)

end

/-- The plain text of a value. -/
def string? : Value → Option String
  | text s => some s
  | date d => some d.isoText
  | moment m => some (m.textWith " ")
  | v => quoted? v

end ResourceAtlas.Value
