import ResourceAtlas.Fault
import ResourceAtlas.Value.Render

/-!
# Writing JSON

Texts are written in the basic alphabet, every other character as one or two escapes. Numbers that
JSON lacks are written as words. Sequences of both kinds are arrays, and a value that JSON has no
form for is written as its text. `compact` writes one line, `indented` a line to each member.
-/

namespace ResourceAtlas.Json

open Number Text

/-- The escape of a code unit. -/
def unitEscape (n : Nat) : List Char :=
  '\\' :: 'u' :: Quoted.hex 4 n

/-- One character of a text. -/
def escapeChar (c : Char) : List Char :=
  let n := c.toNat
  if c = '"' || c = '\\' then ['\\', c]
  else if 0x20 ≤ n ∧ n ≤ 0x7E then [c]
  else if n = 0x8 then ['\\', 'b']
  else if n = 0x9 then ['\\', 't']
  else if n = 0xA then ['\\', 'n']
  else if n = 0xC then ['\\', 'f']
  else if n = 0xD then ['\\', 'r']
  else if n < 0x10000 then unitEscape n
  else
    let m := n - 0x10000
    unitEscape (0xD800 + m / 0x400) ++ unitEscape (0xDC00 + m % 0x400)

/-- A text between double quotes. -/
def quoted (s : String) : String :=
  String.ofList ('"' :: s.toList.flatMap escapeChar ++ ['"'])

/-- A floating-point number, with words for those that JSON lacks. -/
def number (x : Binary64) : String :=
  match x with
  | .nan => "NaN"
  | .infinite false => "Infinity"
  | .infinite true => "-Infinity"
  | x => Value.floatString x

/-- The text of a value without members; containers give the empty text. -/
def leaf (v : Value) : Outcome String :=
  match v with
  | .null => .ok "null"
  | .bool b => .ok (if b then "true" else "false")
  | .int n => writable (Value.intString? n)
  | .float x => .ok (number x)
  | .text s => .ok (quoted s)
  | .list _ => .ok ""
  | .tuple _ => .ok ""
  | .mapping _ => .ok ""
  | .table _ => .ok ""
  | v => (writable v.string?).map quoted

/-- The text that a key is written with; sequences, octets and dates are no keys of a document. -/
def keyText (key : Value) : Outcome String :=
  match key with
  | .text s => .ok s
  | .null => .ok "null"
  | .bool b => .ok (if b then "true" else "false")
  | .int n => writable (Value.intString? n)
  | .float x => .ok (number x)
  | v => .error (.misuse ("keys must be str, int, float, bool or None, not " ++ v.fullKindName))

/-- How members are set apart. -/
structure Layout where
  /-- The width of an indentation; without one, members share a line. -/
  indent : Option Nat

/-- What stands before a member at a depth. -/
def Layout.lead (l : Layout) (depth : Nat) : String :=
  match l.indent with
  | none => ""
  | some width => "\n" ++ String.ofList (List.replicate (width * depth) ' ')

/-- What stands between two members at a depth. -/
def Layout.between (l : Layout) (depth : Nat) : String :=
  match l.indent with
  | none => ", "
  | some _ => "," ++ l.lead depth

/-- Members between brackets. -/
def Layout.enclose (l : Layout) (depth : Nat) (opening closing : String) (parts : List String) :
    String :=
  if parts.isEmpty then opening ++ closing
  else
    opening ++ l.lead (depth + 1) ++ Split.join (l.between (depth + 1)) parts ++ l.lead depth ++
      closing

mutual

/-- The text of a value at a depth. -/
def write (l : Layout) (depth : Nat) : Value → Outcome String
  | .list items => (writeAll l (depth + 1) items).map (l.enclose depth "[" "]")
  | .tuple items => (writeAll l (depth + 1) items).map (l.enclose depth "[" "]")
  | .mapping entries => (writeEntries l (depth + 1) entries).map (l.enclose depth "\x7b" "\x7d")
  | .table entries => (writePairs l (depth + 1) entries).map (l.enclose depth "\x7b" "\x7d")
  | v => leaf v

/-- The texts of members. -/
def writeAll (l : Layout) (depth : Nat) : List Value → Outcome (List String)
  | [] => .ok []
  | v :: rest => do
    let s ← write l depth v
    let more ← writeAll l depth rest
    .ok (s :: more)

/-- The texts of entries. -/
def writeEntries (l : Layout) (depth : Nat) : List (String × Value) → Outcome (List String)
  | [] => .ok []
  | (k, v) :: rest => do
    let s ← write l depth v
    let more ← writeEntries l depth rest
    .ok ((quoted k ++ ": " ++ s) :: more)

/-- The texts of entries under keys of any kind. -/
def writePairs (l : Layout) (depth : Nat) : List (Value × Value) → Outcome (List String)
  | [] => .ok []
  | (k, v) :: rest => do
    let name ← keyText k
    let s ← write l depth v
    let more ← writePairs l depth rest
    .ok ((quoted name ++ ": " ++ s) :: more)

end

/-- The text of a value on one line. -/
def compact (v : Value) : Outcome String :=
  write ⟨none⟩ 0 v

/-- The text of a value with a line to each member. -/
def indented (v : Value) : Outcome String :=
  write ⟨some 2⟩ 0 v

end ResourceAtlas.Json
