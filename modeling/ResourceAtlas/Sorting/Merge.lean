import ResourceAtlas.Sorting.Search

/-!
# Merging two ordered runs

Two neighbouring runs become one. Members that are in place already stay, and of the others the
shorter run is merged into the longer one, from the front or from the back. A merge compares member
by member until one run has won `patience` times in a row. Then it leaps: it looks up how many
members of a run come next and takes them at once, as long as that pays. A leap that pays makes the
merge less patient and one that does not makes it more so; the patience that is left is handed on.
Of two members that do not precede each other the one of the first run comes first.
-/

namespace ResourceAtlas.Sorting

variable {α : Type} (precedes : α → α → Outcome Bool)

/-- How many members of a run come before a new member that follows its equals. -/
def placeAfter (x : α) (run : List α) (hint : Nat) : Outcome Nat :=
  gallop (fun i => match run[i]? with
    | some y => (precedes x y).map (!·)
    | none => .ok false) run.length hint

/-- How many members of a run come before a new member that precedes its equals. -/
def placeBefore (x : α) (run : List α) (hint : Nat) : Outcome Nat :=
  gallop (fun i => match run[i]? with
    | some y => precedes y x
    | none => .ok false) run.length hint

/-- How many members have to be taken at once for a leap to pay. -/
def leapLength : Nat := 7

/-- The patience after a leap that paid. -/
def eager (patience : Nat) : Nat :=
  if 1 < patience then patience - 1 else patience

/-- Merged members with the patience that is left. -/
structure Merged (α : Type) where
  /-- The members. -/
  members : List α
  /-- The patience. -/
  patience : Nat

/-- End a merge from the front: the second run is used up, or the first one has no member left but
the greatest. The merged members come with the last one first. -/
def closeFront (patience : Nat) (done left right : List α) : Merged α :=
  match left with
  | [x] => ⟨done.reverse ++ right ++ [x], patience⟩
  | left => ⟨done.reverse ++ left ++ right, patience⟩

/-- End a merge from the back: the first run is used up, or the second one has no member left but
the least. Both runs come with their last members first. -/
def closeBack (patience : Nat) (done left right : List α) : Merged α :=
  match right with
  | [y] => ⟨y :: left.reverse ++ done, patience⟩
  | right => ⟨left.reverse ++ right.reverse ++ done, patience⟩

mutual

/-- Merge from the front, member by member. -/
def alternateFront (patience fromLeft fromRight : Nat) (done left right : List α) :
    Outcome (Merged α) :=
  match left, right with
  | x :: x' :: left, y :: right => do
    if ← precedes y x then
      if patience ≤ fromRight + 1 then leapLeftFront patience (y :: done) (x :: x' :: left) right
      else alternateFront patience 0 (fromRight + 1) (y :: done) (x :: x' :: left) right
    else if patience ≤ fromLeft + 1 then
      leapLeftFront patience (x :: done) (x' :: left) (y :: right)
    else alternateFront patience (fromLeft + 1) 0 (x :: done) (x' :: left) (y :: right)
  | left, right => .ok (closeFront patience done left right)
termination_by left.length + right.length

/-- Merge from the front, taking what comes next of the first run at once, and then one member of
the second run. -/
def leapLeftFront (patience : Nat) (done left right : List α) : Outcome (Merged α) :=
  match left, right with
  | x :: x' :: left, y :: right => do
    let k ← placeAfter precedes y (x :: x' :: left) 0
    leapRightFront patience k (y :: ((x :: x' :: left).take k).reverse ++ done)
      ((x :: x' :: left).drop k) right
  | left, right => .ok (closeFront patience done left right)
termination_by left.length + right.length
decreasing_by simp only [List.length_drop, List.length_cons]; omega

/-- Merge from the front, taking what comes next of the second run at once, and then one member of
the first run. The leap before took `k` members. -/
def leapRightFront (patience k : Nat) (done left right : List α) : Outcome (Merged α) :=
  match left, right with
  | x :: x' :: left, y :: right => do
    let m ← placeBefore precedes x (y :: right) 0
    let taken := x :: ((y :: right).take m).reverse ++ done
    let rest := (y :: right).drop m
    if left.isEmpty || rest.isEmpty then .ok (closeFront patience taken (x' :: left) rest)
    else if leapLength ≤ k || leapLength ≤ m then
      leapLeftFront (eager patience) taken (x' :: left) rest
    else alternateFront (patience + 1) 0 0 taken (x' :: left) rest
  | left, right => .ok (closeFront patience done left right)
termination_by left.length + right.length
decreasing_by all_goals simp only [List.length_drop, List.length_cons]; omega

end

mutual

/-- Merge from the back, member by member. Both runs come with their last members first. -/
def alternateBack (patience fromLeft fromRight : Nat) (done left right : List α) :
    Outcome (Merged α) :=
  match left, right with
  | x :: left, y :: y' :: right => do
    if ← precedes y x then
      if patience ≤ fromLeft + 1 then leapLeftBack patience (x :: done) left (y :: y' :: right)
      else alternateBack patience (fromLeft + 1) 0 (x :: done) left (y :: y' :: right)
    else if patience ≤ fromRight + 1 then
      leapLeftBack patience (y :: done) (x :: left) (y' :: right)
    else alternateBack patience 0 (fromRight + 1) (y :: done) (x :: left) (y' :: right)
  | left, right => .ok (closeBack patience done left right)
termination_by left.length + right.length

/-- Merge from the back, taking what comes next of the first run at once, and then one member of the
second run. -/
def leapLeftBack (patience : Nat) (done left right : List α) : Outcome (Merged α) :=
  match left, right with
  | x :: left, y :: y' :: right => do
    let place ← placeAfter precedes y (x :: left).reverse left.length
    let k := left.length + 1 - place
    leapRightBack patience k (y :: ((x :: left).take k).reverse ++ done) ((x :: left).drop k)
      (y' :: right)
  | left, right => .ok (closeBack patience done left right)
termination_by left.length + right.length
decreasing_by simp only [List.length_drop, List.length_cons]; omega

/-- Merge from the back, taking what comes next of the second run at once, and then one member of
the first run. The leap before took `k` members. -/
def leapRightBack (patience k : Nat) (done left right : List α) : Outcome (Merged α) :=
  match left, right with
  | x :: left, y :: y' :: right => do
    let place ← placeBefore precedes x (y :: y' :: right).reverse (right.length + 1)
    let m := right.length + 2 - place
    let taken := x :: ((y :: y' :: right).take m).reverse ++ done
    let rest := (y :: y' :: right).drop m
    if left.isEmpty || rest.length ≤ 1 then .ok (closeBack patience taken left rest)
    else if leapLength ≤ k || leapLength ≤ m then leapLeftBack (eager patience) taken left rest
    else alternateBack (patience + 1) 0 0 taken left rest
  | left, right => .ok (closeBack patience done left right)
termination_by left.length + right.length
decreasing_by all_goals simp only [List.length_drop, List.length_cons]; omega

end

/-- Merge two runs that are not empty, of which the first member of the second one precedes the
first member of the first one, and the last member of the second one the last of the first. -/
def mergeApart (patience : Nat) (left right : List α) : Outcome (Merged α) :=
  if left.length ≤ right.length then
    alternateFront precedes patience 0 0 (right.take 1) left (right.drop 1)
  else
    let back := left.reverse
    alternateBack precedes patience 0 0 (back.take 1) (back.drop 1) right.reverse

/-- Merge two runs. -/
def mergeRuns (patience : Nat) (left right : List α) : Outcome (Merged α) :=
  match right.head? with
  | none => .ok ⟨left, patience⟩
  | some y => do
    let k ← placeAfter precedes y left 0
    match (left.drop k).getLast? with
    | none => .ok ⟨left ++ right, patience⟩
    | some x => do
      let m ← placeBefore precedes x right (right.length - 1)
      if m = 0 then .ok ⟨left ++ right, patience⟩
      else
        let merged ← mergeApart precedes patience (left.drop k) (right.take m)
        .ok ⟨left.take k ++ merged.members ++ right.drop m, merged.patience⟩

end ResourceAtlas.Sorting
