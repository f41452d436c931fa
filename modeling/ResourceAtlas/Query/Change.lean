import ResourceAtlas.Query.State

/-!
# Changes to a query state

A change adds predicates or fields to fill in, or replaces the order or the window. One that is
given unusable data leaves no new state.
-/

namespace ResourceAtlas.Query

/-- A comparison of a field with a value. -/
structure Comparison where
  /-- The field. -/
  field : String
  /-- The comparison. -/
  operator : Operator
  /-- What is compared with. -/
  operand : Value
  deriving Repr

/-- The predicates of comparisons, a later one replacing an earlier one on its field. -/
def predicatesOf (comparisons : List Comparison) : Keyed Predicate :=
  Keyed.ofList (comparisons.map fun c => (c.field, ⟨c.operator, c.operand⟩))

/-- One thing to ask, or to take back. -/
inductive Change
  /-- Ask that comparisons hold. -/
  | filter (comparisons : List Comparison)
  /-- Ask for an order. -/
  | sort (field direction : Value)
  /-- Take the order back. -/
  | unsort
  /-- Ask for a window. -/
  | window (limit offset : Value)
  /-- Take the window back. -/
  | unwindow
  /-- Ask for fields to be filled in. -/
  | expand (names : List Value)
  deriving Repr, Inhabited

/-- The state after a change. -/
def Change.apply (s : State) : Change → Outcome State
  | filter comparisons => .ok (s.withFilter (predicatesOf comparisons))
  | sort field direction => (Order.make field direction).map fun o => s.withSort (some o)
  | unsort => .ok (s.withSort none)
  | window limit offset => (Window.make limit offset).map fun w => s.withWindow (some w)
  | unwindow => .ok (s.withWindow none)
  | expand names => .ok (s.withExpand names)

/-- The state after changes in turn. -/
def Change.applyAll (s : State) : List Change → Outcome State
  | [] => .ok s
  | c :: rest => do
    let s ← c.apply s
    applyAll s rest

end ResourceAtlas.Query
