import ResourceAtlas.Sorting.Merge

/-!
# Ordering members

The members are taken run by run: as many as are in order already, or strictly in the opposite
order, and a run that is too short is filled up by inserting the members that follow it. Runs are
put on a pile and merged with their neighbours. Which of them are merged first depends on where
their borders lie in the whole: the border between two runs has a power, the number of halvings
after which their middles are no longer on one side, and runs with a border of greater power are
merged before the pile grows. For a consistent order the result is the members in that order, with
those that do not precede each other in the order in which they came.
-/

namespace ResourceAtlas.Sorting

variable {α : Type} (precedes : α → α → Outcome Bool)

/-- How many members go on in the direction of the member before them. -/
def runLength (down : Bool) (last : α) : List α → Outcome Nat
  | [] => .ok 0
  | x :: rest => do
    let p ← precedes x last
    if p = down then (runLength down x rest).map (· + 1) else .ok 0

/-- Insert members one by one into an ordered list. -/
def insertEach (ordered : List α) : List α → Outcome (List α)
  | [] => .ok ordered
  | x :: rest => do
    let place ← bisect (fun i => match ordered[i]? with
      | some y => (precedes x y).map (!·)
      | none => .ok false) 0 ordered.length
    insertEach (ordered.take place ++ x :: ordered.drop place) rest

/-- The run that members start with and how many members follow its first one. It holds at least
`minimum` members if there are as many. -/
def firstRun (minimum : Nat) (x : α) (rest : List α) : Outcome (List α × Nat) := do
  let down ← match rest with
    | [] => .ok false
    | y :: _ => precedes y x
  let count ← runLength precedes down x rest
  let natural := x :: rest.take count
  let ordered := if down then natural.reverse else natural
  let more := (rest.drop count).take (minimum - (count + 1))
  let run ← insertEach precedes ordered more
  .ok (run, max count (minimum - 1))

/-- The least length of a run for a number of members: the number itself below 64, else its six
highest bits, one more if any other bit is set. -/
def minimumRun (count : Nat) : Nat :=
  if count < 64 then count
  else
    let spare := Nat.log2 count - 5
    count / Nat.pow 2 spare + (if count % Nat.pow 2 spare = 0 then 0 else 1)

/-- The first halving that sets two fractions of a whole apart, both below two wholes. -/
def powerOf (whole : Nat) : Nat → Nat → Nat → Nat
  | 0, _, _ => 1
  | fuel + 1, a, b =>
    if whole ≤ a then powerOf whole fuel (2 * (a - whole)) (2 * (b - whole)) + 1
    else if whole ≤ b then 1
    else powerOf whole fuel (2 * a) (2 * b) + 1

/-- An ordered run on the pile. -/
structure Run (α : Type) where
  /-- How many members come before it. -/
  start : Nat
  /-- Its members. -/
  members : List α
  /-- The power of the border after it. -/
  power : Nat

/-- The runs that wait to be merged, the last one first. -/
structure Pile (α : Type) where
  /-- The runs. -/
  runs : List (Run α)
  /-- The patience of the next merge. -/
  patience : Nat

/-- The power of the border between a run and the one after it. -/
def borderPower (whole : Nat) (run : Run α) (next : Nat) : Nat :=
  let a := 2 * run.start + run.members.length
  powerOf whole (Nat.log2 whole + 3) a (a + run.members.length + next)

/-- Merge the runs on top of a pile whose border is of greater power than a new one, and note the
new power. -/
def makeRoom (power patience : Nat) : List (Run α) → Outcome (Pile α)
  | second :: first :: rest =>
    if power < first.power then do
      let merged ← mergeRuns precedes patience first.members second.members
      makeRoom power merged.patience (⟨first.start, merged.members, 0⟩ :: rest)
    else .ok ⟨{ second with power := power } :: first :: rest, patience⟩
  | [run] => .ok ⟨[{ run with power := power }], patience⟩
  | [] => .ok ⟨[], patience⟩
termination_by runs => runs.length

/-- Put a run on a pile. -/
def Pile.push (whole : Nat) (pile : Pile α) (start : Nat) (members : List α) :
    Outcome (Pile α) := do
  let pile ← match pile.runs with
    | [] => .ok pile
    | run :: _ =>
      makeRoom precedes (borderPower whole run members.length) pile.patience pile.runs
  .ok { pile with runs := ⟨start, members, 0⟩ :: pile.runs }

/-- Put the runs of members on a pile. -/
def pileUp (whole minimum : Nat) (pile : Pile α) (start : Nat) : List α → Outcome (Pile α)
  | [] => .ok pile
  | x :: rest => do
    let (run, following) ← firstRun precedes minimum x rest
    let pile ← pile.push precedes whole start run
    pileUp whole minimum pile (start + run.length) (rest.drop following)
termination_by members => members.length
decreasing_by simp only [List.length_drop, List.length_cons]; omega

/-- Merge all runs of a pile. Of the last three, the first two are merged first if the first one is
the shortest. -/
def collapse (patience : Nat) : List (Run α) → Outcome (List α)
  | [] => .ok []
  | [run] => .ok run.members
  | third :: second :: [] => do
    let merged ← mergeRuns precedes patience second.members third.members
    .ok merged.members
  | third :: second :: first :: rest =>
    if first.members.length < third.members.length then do
      let merged ← mergeRuns precedes patience first.members second.members
      collapse merged.patience (third :: ⟨first.start, merged.members, 0⟩ :: rest)
    else do
      let merged ← mergeRuns precedes patience second.members third.members
      collapse merged.patience (⟨second.start, merged.members, 0⟩ :: first :: rest)
termination_by runs => runs.length

/-- The members in order. -/
def sortMembers (members : List α) : Outcome (List α) :=
  let count := members.length
  if count < 2 then .ok members
  else do
    let pile ← pileUp precedes count (minimumRun count) ⟨[], leapLength⟩ 0 members
    collapse precedes pile.patience pile.runs

end ResourceAtlas.Sorting
