import ResourceAtlas.Fault
import ResourceAtlas.Text.Utf8
import ResourceAtlas.Value.Render

/-!
# Values in documents

A document over HTTP holds what JSON has. Dates and moments are carried as texts, octets as the text
that they write, every sequence as a list, and a number that JSON lacks as nothing. Records,
deferred values and octets that write no text are not carried. A moment in a document tells its
offset to the minute.
-/

namespace ResourceAtlas.Service.Document

open Calendar Number Text

/-- The offset of a moment from its microseconds: hours and minutes of whole seconds. -/
def offsetText (offset : Int) : String :=
  let seconds := (offset.natAbs + 500000) / 1000000
  if offset = 0 then "Z"
  else (if offset < 0 then "-" else "+") ++ Date.padded 2 (seconds / 3600) ++ ":" ++
    Date.padded 2 (seconds / 60 % 60)

/-- A moment as a text. -/
def momentText (m : Moment) : String :=
  ({ m with offset := none } : Moment).isoText ++
    match m.offset with
    | none => ""
    | some offset => offsetText offset

/-- Why octets write no text. -/
def octetFault (index : Nat) (length : Option Nat) : Fault :=
  .unserializable ("Error serializing to JSON: " ++ match length with
    | some n => "invalid utf-8 sequence of " ++ toString n ++ " bytes from index " ++ toString index
    | none => "incomplete utf-8 byte sequence from index " ++ toString index)

/-- The text that octets write. -/
def octetText (octets : List UInt8) : Outcome String :=
  match Utf8.flaw? octets with
  | some (index, length) => .error (octetFault index length)
  | none => .ok (String.ofList (Utf8.decode octets))

/-- The fault of a value that documents have no form for. -/
def unknownKind (v : Value) : Fault :=
  .unserializable ("Unable to serialize unknown type: <class '" ++ v.fullKindName ++ "'>")

mutual

/-- The text that stands for a key in a document. -/
def keyText : Value → Outcome String
  | .text s => .ok s
  | .null => .ok "None"
  | .bool b => .ok (if b then "true" else "false")
  | .bytes octets => octetText octets
  | .date d => .ok d.isoText
  | .moment m => .ok (momentText m)
  | .tuple items => (keyTexts items).map (Split.join ",")
  | v => writable v.string?

/-- The texts that stand for the parts of a key. -/
def keyTexts : List Value → Outcome (List String)
  | [] => .ok []
  | v :: rest => do
    let s ← keyText v
    let more ← keyTexts rest
    .ok (s :: more)

end

mutual

/-- A value as documents carry it. -/
def carry : Value → Outcome Value
  | .float x => .ok (if x.isFinite then .float x else .null)
  | .list items => (carryAll items).map .list
  | .tuple items => (carryAll items).map .list
  | .mapping entries => (carryEntries entries).map .mapping
  | .table entries => (carryPairs entries).map fun es => .mapping (Keyed.ofList es)
  | .date d => .ok (.text d.isoText)
  | .moment m => .ok (.text (momentText m))
  | .bytes octets => (octetText octets).map .text
  | .deferred v => .error (unknownKind (.deferred v))
  | .record entries => .error (unknownKind (.record entries))
  | v => .ok v

/-- Values as documents carry them. -/
def carryAll : List Value → Outcome (List Value)
  | [] => .ok []
  | v :: rest => do
    let w ← carry v
    let more ← carryAll rest
    .ok (w :: more)

/-- Entries as documents carry them. -/
def carryEntries : List (String × Value) → Outcome (List (String × Value))
  | [] => .ok []
  | (k, v) :: rest => do
    let w ← carry v
    let more ← carryEntries rest
    .ok ((k, w) :: more)

/-- Entries under keys of any kind as documents carry them. -/
def carryPairs : List (Value × Value) → Outcome (List (String × Value))
  | [] => .ok []
  | (k, v) :: rest => do
    let name ← keyText k
    let w ← carry v
    let more ← carryPairs rest
    .ok ((name, w) :: more)

end

mutual

/-- Let a value pass if every number in it has a form in JSON. -/
def check : Value → Outcome Unit
  | .float x =>
    if x.isFinite then .ok ()
    else .error (.computation "Out of range float values are not JSON compliant")
  | .int n => (writable (Value.intString? n)).map fun _ => ()
  | .list items => checkAll items
  | .tuple items => checkAll items
  | .mapping entries => checkEntries entries
  | _ => .ok ()

/-- Let values pass if every number in them has a form in JSON. -/
def checkAll : List Value → Outcome Unit
  | [] => .ok ()
  | v :: rest => do
    check v
    checkAll rest

/-- Let entries pass if every number in them has a form in JSON. -/
def checkEntries : List (String × Value) → Outcome Unit
  | [] => .ok ()
  | (_, v) :: rest => do
    check v
    checkEntries rest

end

end ResourceAtlas.Service.Document
