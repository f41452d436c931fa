import ResourceAtlas.Query.Operator

/-!
# Query states

What a caller asks of a collection: predicates on fields, an order, a window, and fields to fill in.
Predicates merge field by field, a later one for the same field replacing the earlier in its place;
fields to fill in gather without repetition; order and window are replaced whole.
-/

namespace ResourceAtlas.Query

open Number

/-- The direction of an order. -/
inductive Direction
  /-- From the least up. -/
  | ascending
  /-- From the greatest down. -/
  | descending
  deriving DecidableEq, Repr

/-- The word for a direction. -/
def Direction.name : Direction → String
  | ascending => "asc"
  | descending => "desc"

/-- The direction of a word. -/
def Direction.ofName? (s : String) : Option Direction :=
  if s = "asc" then some ascending else if s = "desc" then some descending else none

/-- An order by a field. -/
structure Order where
  /-- The field: a text, or another key of items that are mappings. -/
  field : Value
  /-- The direction. -/
  direction : Direction
  deriving Repr

/-- An order from a field and the value that names its direction. -/
def Order.make (field direction : Value) : Outcome Order := do
  let refused : Outcome Order := do
    let given ← writable direction.quoted?
    .error (.sortDirection given)
  match direction with
  | .text s =>
    match Direction.ofName? s with
    | some d => .ok ⟨field, d⟩
    | none => refused
  | _ => refused

/-- A limit or an offset: what is not negative among the numbers. -/
inductive Bound
  /-- A count of members. -/
  | whole (n : Nat)
  /-- A truth value, which counts as 0 or 1. -/
  | flag (b : Bool)
  /-- A floating-point number, which counts no members. -/
  | real (x : Binary64)
  deriving DecidableEq, Repr

namespace Bound

/-- The bound that a value gives; nothing gives none. -/
def ofValue (name : String) : Value → Outcome (Option Bound)
  | .null => .ok none
  | .int n =>
    if n < 0 then do
      let given ← writable (Value.intString? n)
      .error (.negativeBound name given)
    else .ok (some (whole n.toNat))
  | .bool b => .ok (some (flag b))
  | .float x =>
    if x.ltInt 0 then .error (.negativeBound name (Value.floatString x))
    else .ok (some (real x))
  | v => .error (.unordered v.fullKindName "int")

/-- The value of a bound. -/
def value : Bound → Value
  | whole n => .int n
  | flag b => .bool b
  | real x => .float x

/-- A bound other than zero. -/
def isNonzero (b : Bound) : Bool :=
  b.value.isTruthy

end Bound

/-- A window on the selected members. -/
structure Window where
  /-- How many members at most; all without it. -/
  limit : Option Bound
  /-- How many members are passed over; none without it. -/
  offset : Option Bound
  deriving DecidableEq, Repr

/-- A window from the values of its bounds. -/
def Window.make (limit offset : Value) : Outcome Window := do
  let l ← Bound.ofValue "limit" limit
  let o ← Bound.ofValue "offset" offset
  .ok ⟨l, o⟩

/-- A window of counts. -/
def Window.ofCounts (limit offset : Option Nat) : Window :=
  ⟨limit.map .whole, offset.map .whole⟩

/-- What is asked of a collection. -/
structure State where
  /-- Predicates by field. -/
  filter : Keyed Predicate
  /-- The order. -/
  sort : Option Order
  /-- The window. -/
  window : Option Window
  /-- The fields to fill in. Only texts name any. -/
  expand : List Value
  deriving Repr

namespace State

/-- Nothing is asked. -/
def empty : State := ⟨[], none, none, []⟩

instance : Inhabited State := ⟨empty⟩

/-- Add predicates. -/
def withFilter (s : State) (predicates : Keyed Predicate) : State :=
  { s with filter := s.filter.merge predicates }

/-- Replace the order. -/
def withSort (s : State) (sort : Option Order) : State :=
  { s with sort := sort }

/-- Replace the window. -/
def withWindow (s : State) (window : Option Window) : State :=
  { s with window := window }

/-- Add a field to fill in, unless an equal one is there. -/
def addField (fields : List Value) (name : Value) : List Value :=
  if fields.any fun field => Value.equal field name then fields else fields ++ [name]

/-- Add fields to fill in, each at its first coming. -/
def withExpand (s : State) (names : List Value) : State :=
  { s with expand := names.foldl addField s.expand }

/-- Whether nothing is asked. -/
def isEmpty (s : State) : Bool :=
  s.filter.isEmpty && s.sort.isNone && s.window.isNone && s.expand.isEmpty

/-- The query text of a predicate on a field. -/
def predicateText (field : String) (p : Predicate) : Outcome String := do
  let operand ← p.operator.operandText p.operand
  match p.operator with
  | .equals => .ok (field ++ "=" ++ operand)
  | op => .ok (field ++ "." ++ op.name ++ "=" ++ operand)

/-- The query text of a bound, if there is one. -/
def boundText (name : String) : Option Bound → Outcome (List String)
  | none => .ok []
  | some b => do
    let given ← writable b.value.string?
    .ok [name ++ "=" ++ given]

/-- The query text of an order, if there is one. -/
def orderText : Option Order → Outcome (List String)
  | none => .ok []
  | some o => do
    let field ← writable o.field.string?
    .ok ["sort=" ++ field ++ "." ++ o.direction.name]

/-- The names of fields, counted from an index. All of them have to be texts. -/
def fieldTexts (index : Nat) : List Value → Outcome (List String)
  | [] => .ok []
  | .text name :: rest => (fieldTexts (index + 1) rest).map (name :: ·)
  | v :: _ => .error (.misuse ("sequence item " ++ toString index ++
      ": expected str instance, " ++ v.fullKindName ++ " found"))

/-- The query text of fields to fill in, if there are any. -/
def expandText (fields : List Value) : Outcome (List String) :=
  if fields.isEmpty then .ok []
  else (fieldTexts 0 fields).map fun names => ["expand=" ++ Text.Split.join "," names]

/-- The parts of the query text, in the order in which they are written. -/
def parts (s : State) : Outcome (List String) := do
  let filters ← s.filter.mapM fun e => predicateText e.1 e.2
  let sort ← orderText s.sort
  let window ← match s.window with
    | none => .ok []
    | some w => do
      let limit ← boundText "limit" w.limit
      let offset ← boundText "offset" w.offset
      .ok (limit ++ offset)
  let expand ← expandText s.expand
  .ok (filters ++ sort ++ window ++ expand)

/-- The query text of a state. -/
def text (s : State) : Outcome String := do
  let all ← s.parts
  .ok (Text.Split.join "&" all)

end State

end ResourceAtlas.Query
