import ResourceAtlas.Fault
import ResourceAtlas.Value.Order

/-!
# Numbers as amounts

Amounts are added and compared as numbers, and whole ones cut stretches out of sequences. A truth
value counts as 0 or 1. A floating-point number counts no members, even if it is whole.
-/

namespace ResourceAtlas.Value

open Number

/-- The floating-point number nearest to an integer, unless the integer is beyond all of them. -/
def realOf (n : Int) : Outcome Binary64 :=
  match Binary64.ofInt n with
  | .infinite _ => .error .integerTooLarge
  | x => .ok x

/-- A number as a value. -/
def ofNumeric : Numeric → Value
  | .whole n => int n
  | .real x => float x

/-- The sum of two numbers. A floating-point number makes the other one such a number. -/
def Numeric.sum : Numeric → Numeric → Outcome Numeric
  | .whole m, .whole n => .ok (.whole (m + n))
  | .whole m, .real y => (realOf m).map fun x => .real (x.add y)
  | .real x, .whole n => (realOf n).map fun y => .real (x.add y)
  | .real x, .real y => .ok (.real (x.add y))

/-- The amount that a value is; nothing counts as zero. -/
def amount (v : Value) : Numeric :=
  v.numeric?.getD (.whole 0)

/-- The first amount is below the second. -/
def amountLt (v w : Value) : Bool :=
  v.amount.lt w.amount

/-- The first amount is below the second or equal to it. -/
def amountLe (v w : Value) : Bool :=
  v.amount.lt w.amount || v.amount.equal w.amount

/-- The sum of two amounts. -/
def amountSum (v w : Value) : Outcome Value :=
  (v.amount.sum w.amount).map ofNumeric

/-- The first of two amounts, or the second if that is below it. -/
def amountMin (v w : Value) : Value :=
  if amountLt w v then w else v

/-- Where a signed index stands in a sequence: a negative one counts from the end. -/
def clampIndex (count : Nat) (i : Int) : Nat :=
  (if i < 0 then max 0 (i + count) else min i count).toNat

/-- The members from one signed index up to another. -/
def slice {α : Type} (items : List α) (first last : Int) : List α :=
  let start := clampIndex items.length first
  (items.take (clampIndex items.length last)).drop start

/-- The members from one amount up to another, or to the end. -/
def stretch {α : Type} (items : List α) (first : Value) (last : Option Value) :
    Outcome (List α) :=
  match first.index?, last with
  | some i, none => .ok (items.drop (clampIndex items.length i))
  | some i, some w =>
    match w.index? with
    | some j => .ok (slice items i j)
    | none => .error .fractionalBound
  | none, _ => .error .fractionalBound

end ResourceAtlas.Value
