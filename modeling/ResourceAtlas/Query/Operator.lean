import ResourceAtlas.Fault
import ResourceAtlas.Number.Numeral
import ResourceAtlas.Value.Amount
import ResourceAtlas.Value.Render

/-!
# Filter operators

An operator reads its operand from a query text, writes it back, and tests a field of an item
against it. `gt` and `lt` compare floating-point numbers; whatever is no number counts as `nan`,
which no comparison holds of.
-/

namespace ResourceAtlas.Query

open Number Text

/-- A comparison that a filter can make. -/
inductive Operator
  /-- Of one kind and equal. -/
  | equals
  /-- A text that holds the operand. -/
  | contains
  /-- A text that starts with the operand. -/
  | startsWith
  /-- Above the operand as a number. -/
  | gt
  /-- Below the operand as a number. -/
  | lt
  deriving DecidableEq, Repr

namespace Operator

/-- The name of an operator in a query. -/
def name : Operator → String
  | equals => "equals"
  | contains => "contains"
  | startsWith => "startsWith"
  | gt => "gt"
  | lt => "lt"

/-- All operators. -/
def all : List Operator :=
  [equals, contains, startsWith, gt, lt]

/-- The operator of a name. -/
def ofName? (s : String) : Option Operator :=
  all.find? fun op => op.name == s

/-- A value as a floating-point number, `nan` for what is no number. -/
def toReal : Value → Outcome Binary64
  | .int n => Value.realOf n
  | .float x => .ok x
  | .text s => .ok ((Numeral.readFloat? s.toList).getD .nan)
  | .bytes b =>
    if b.all fun o => o.toNat < 0x80 then
      .ok ((Numeral.readFloat? (b.map fun o => Char.ofNat o.toNat)).getD .nan)
    else .ok .nan
  | _ => .ok .nan

/-- The operand that a query text gives an operator. -/
def parse (op : Operator) (given : String) : Value :=
  match op with
  | gt | lt => .float ((Numeral.readFloat? given.toList).getD .nan)
  | _ => .text given

/-- The text of a number operand: whole floating-point numbers are written as integers. -/
def numberText (v : Value) : Outcome String :=
  match v with
  | .float x =>
    match x.toInt? with
    | some n => writable (Value.intString? n)
    | none => .ok (Value.floatString x)
  | v => writable v.string?

/-- The text of an operand in a query. -/
def operandText (op : Operator) (operand : Value) : Outcome String :=
  match op with
  | gt | lt => numberText operand
  | _ => (writable operand.string?).map Percent.encodeString

/-- Whether a text starts with one of several, taken in order. -/
def startsWithAny (s : String) : List Value → Outcome Bool
  | [] => .ok false
  | .text t :: rest => if t.toList.isPrefixOf s.toList then .ok true else startsWithAny s rest
  | v :: _ => .error (.startAlternative v.fullKindName)

/-- Test a field against an operand. -/
def test (op : Operator) (item operand : Value) : Outcome Bool :=
  match op with
  | equals => .ok (Value.strictEqual item operand)
  | contains =>
    match item, operand with
    | .text s, .text t => .ok (Split.contains t.toList s.toList)
    | .text _, v => .error (.containsOperand v.fullKindName)
    | _, _ => .ok false
  | startsWith =>
    match item, operand with
    | .text s, .text t => .ok (t.toList.isPrefixOf s.toList)
    | .text s, .tuple ts => startsWithAny s ts
    | .text _, v => .error (.startOperand v.fullKindName)
    | _, _ => .ok false
  | gt => do
    let x ← toReal item
    let y ← toReal operand
    .ok (y.lt x)
  | lt => do
    let x ← toReal item
    let y ← toReal operand
    .ok (x.lt y)

end Operator

/-- An operator with its operand. -/
structure Predicate where
  /-- The comparison. -/
  operator : Operator
  /-- What is compared with. -/
  operand : Value
  deriving Repr

/-- Test a field of an item. -/
def Predicate.test (p : Predicate) (item : Value) : Outcome Bool :=
  p.operator.test item p.operand

end ResourceAtlas.Query
