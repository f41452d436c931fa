import ResourceAtlas.Query.State
import ResourceAtlas.Text.Blank

/-!
# Reading a query text

A query text is parts with `&` between them. A part without `=` says nothing. Four keys are words
of the query; any other key is a field, perhaps with an operator after its last point. Of two
parts that give one thing the later counts, but predicates gather.
-/

namespace ResourceAtlas.Address

open Number Query Text

/-- A comparison of a field with a text, as a query writes it. -/
structure Clause where
  /-- The field. -/
  field : String
  /-- The comparison. -/
  operator : Operator
  /-- The text that is compared with. -/
  operand : String
  deriving DecidableEq, Repr

/-- An order by a field, as a query writes it. -/
structure OrderClause where
  /-- The field. -/
  field : String
  /-- The direction. -/
  direction : Direction
  deriving DecidableEq, Repr

/-- The order that a query writes. -/
def OrderClause.order (c : OrderClause) : Order := ⟨.text c.field, c.direction⟩

/-- What a query text asks. -/
structure Request where
  /-- Comparisons in the order of the text. -/
  filters : List Clause
  /-- The order, if one is asked. -/
  order : Option OrderClause
  /-- The greatest number of members, if one is asked. -/
  limit : Option Nat
  /-- The number of members to pass over, if one is asked. -/
  offset : Option Nat
  /-- The fields to fill in. -/
  expand : List String
  deriving DecidableEq, Repr

namespace Request

/-- The request of the empty query. -/
def empty : Request := ⟨[], none, none, none, []⟩

instance : Inhabited Request := ⟨empty⟩

end Request

/-- Why a numeral was refused, as a fault. -/
def refusalFault (given : List Char) : Numeral.Refusal → Fault
  | .malformed => .notInteger (String.ofList given)
  | .tooLong digits => .tooManyDigits digits

/-- The integer of a text that has the shape of one. -/
def readInteger (text : List Char) : Outcome Int :=
  match Numeral.integerValue text with
  | .ok n => .ok n
  | .error refusal => .error (refusalFault text refusal)

/-- Read the count that a word of the query gives. -/
def readCount (name : String) (text : List Char) : Outcome Nat :=
  if Digit.isInteger text then do
    let n ← readInteger text
    if n < 0 then .error (.malformedQuery (.countNegative name (String.ofList text)))
    else .ok n.toNat
  else .error (.malformedQuery (.countNotInteger name (String.ofList text)))

/-- The order that a text asks: a field, with a direction after the last point or without one. -/
def readOrder (text : List Char) : OrderClause :=
  match Split.atLast '.' text with
  | some (field, word) =>
    match Direction.ofName? (String.ofList word) with
    | some d => if field.isEmpty then ⟨String.ofList text, .ascending⟩ else ⟨String.ofList field, d⟩
    | none => ⟨String.ofList text, .ascending⟩
  | none => ⟨String.ofList text, .ascending⟩

/-- The names in a list with commas, trimmed of blanks; empty ones are passed over. -/
def readNames (text : List Char) : List String :=
  (((Split.every ',' text).map Blank.trim).filter fun name => !name.isEmpty).map String.ofList

/-- The comparison that a key and a value ask: an operator after the last point of the key, or
equality. -/
def readClause (key value : List Char) : Clause :=
  let plain : Clause := ⟨String.ofList key, .equals, String.ofList value⟩
  match Split.atLast '.' key with
  | some (field, word) =>
    match Operator.ofName? (String.ofList word) with
    | some op => if field.isEmpty then plain else ⟨String.ofList field, op, String.ofList value⟩
    | none => plain
  | none => plain

/-- Add what a key and a value ask to a request. -/
def Request.add (r : Request) (key value : List Char) : Outcome Request :=
  if key = "sort".toList then .ok { r with order := some (readOrder value) }
  else if key = "limit".toList then do
    let n ← readCount "limit" value
    .ok { r with limit := some n }
  else if key = "offset".toList then do
    let n ← readCount "offset" value
    .ok { r with offset := some n }
  else if key = "expand".toList then .ok { r with expand := readNames value }
  else .ok { r with filters := r.filters ++ [readClause key value] }

/-- Add what a part of a query text asks to a request. -/
def Request.addPart (r : Request) (part : List Char) : Outcome Request :=
  match Split.atFirst '=' part with
  | none => .ok r
  | some (key, value) => r.add (Percent.decode key) (Percent.decode value)

/-- Add all parts in order. -/
def Request.addParts (r : Request) : List (List Char) → Outcome Request
  | [] => .ok r
  | part :: rest => do
    let r ← r.addPart part
    r.addParts rest

/-- Read a query text. -/
def readRequest (text : List Char) : Outcome Request :=
  Request.empty.addParts (Split.every '&' text)

/-- The predicates that comparisons ask, a later one replacing an earlier one on its field. -/
def Request.predicates (r : Request) : Keyed Predicate :=
  Keyed.ofList (r.filters.map fun c => (c.field, ⟨c.operator, c.operator.parse c.operand⟩))

/-- The window that a request asks, if it gives a limit or an offset. -/
def Request.window (r : Request) : Option Window :=
  if r.limit.isNone && r.offset.isNone then none
  else some (.ofCounts r.limit r.offset)

/-- Add what a request asks to a state. -/
def Request.apply (r : Request) (s : State) : State :=
  let s := if r.filters.isEmpty then s else s.withFilter r.predicates
  let s := if r.order.isNone then s else s.withSort (r.order.map OrderClause.order)
  let s := if r.window.isNone then s else s.withWindow r.window
  if r.expand.isEmpty then s else s.withExpand (r.expand.map .text)

end ResourceAtlas.Address
