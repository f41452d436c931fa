import ResourceAtlas.Sorting.Merge

/-!
# Merging step by step

Three ways to go on with a merge call each other, member by member and by leaps. Patience decides
which of them comes next, and nothing else does it decide: whichever is taken, a merge ends, or takes
members off the runs and goes on with the others. So what every step hands on from the rest of a
merge to the whole of it holds of all merges, those from the front and those from the back.
-/

namespace ResourceAtlas.Sorting

variable {α : Type} {precedes : α → α → Outcome Bool}
variable {p : List α → List α → List α → Outcome (Merged α) → Prop}

/-- Two runs that a merge from the front does not go on with: the second one is used up, or the first
one has no more than one member left. -/
theorem few_of_not_cons {left right : List α}
    (hshort : ∀ (x x' : α) (left' : List α) (y : α) (right' : List α),
      left = x :: x' :: left' → right = y :: right' → False) :
    left.length ≤ 1 ∨ right = [] := by
  match left, right with
  | x :: x' :: left, y :: right => exact (hshort x x' left y right rfl rfl).elim
  | [], _ => simp
  | [_], _ => simp
  | _, [] => simp

/-- Two runs that a merge from the back does not go on with: the first one is used up, or the second
one has no more than one member left. -/
theorem few_of_not_cons_back {left right : List α}
    (hshort : ∀ (x : α) (left' : List α) (y y' : α) (right' : List α),
      left = x :: left' → right = y :: y' :: right' → False) :
    right.length ≤ 1 ∨ left = [] :=
  few_of_not_cons fun y y' right' x left' hright hleft => hshort x left' y y' right' hleft hright

/-- Each of the three ways to go on with a merge from the front ends it where the second run is used
up, or the first one has no more than one member left. -/
theorem mergeFront_close (precedes : α → α → Outcome Bool) {left right : List α}
    (hfew : left.length ≤ 1 ∨ right = []) (patience : Nat) (done : List α) :
    (∀ fromLeft fromRight, alternateFront precedes patience fromLeft fromRight done left right =
      .ok (closeFront patience done left right)) ∧
    leapLeftFront precedes patience done left right = .ok (closeFront patience done left right) ∧
    ∀ k, leapRightFront precedes patience k done left right =
      .ok (closeFront patience done left right) := by
  have hshort : ∀ (x x' : α) (left' : List α) (y : α) (right' : List α),
      left = x :: x' :: left' → right = y :: right' → False := by
    rintro x x' left' y right' rfl rfl
    simp at hfew
  refine ⟨fun _ _ => ?_, ?_, fun _ => ?_⟩
  · rw [alternateFront]
    exact hshort
  · rw [leapLeftFront]
    exact hshort
  · rw [leapRightFront]
    exact hshort

/-- Each of the three ways to go on with a merge from the back ends it where the first run is used
up, or the second one has no more than one member left. -/
theorem mergeBack_close (precedes : α → α → Outcome Bool) {left right : List α}
    (hfew : right.length ≤ 1 ∨ left = []) (patience : Nat) (done : List α) :
    (∀ fromLeft fromRight, alternateBack precedes patience fromLeft fromRight done left right =
      .ok (closeBack patience done left right)) ∧
    leapLeftBack precedes patience done left right = .ok (closeBack patience done left right) ∧
    ∀ k, leapRightBack precedes patience k done left right =
      .ok (closeBack patience done left right) := by
  have hshort : ∀ (x : α) (left' : List α) (y y' : α) (right' : List α),
      left = x :: left' → right = y :: y' :: right' → False := by
    rintro x left' y y' right' rfl rfl
    simp at hfew
  refine ⟨fun _ _ => ?_, ?_, fun _ => ?_⟩
  · rw [alternateBack]
    exact hshort
  · rw [leapLeftBack]
    exact hshort
  · rw [leapRightBack]
    exact hshort

/-- A statement about the members that are merged already, those that are left of two runs and the
result, as the steps of a merge from the front hand it on. -/
structure FrontSteps (precedes : α → α → Outcome Bool)
    (p : List α → List α → List α → Outcome (Merged α) → Prop) : Prop where
  /-- It holds where the second run is used up, or the first one has no more than one member left. -/
  close : ∀ {left right}, left.length ≤ 1 ∨ right = [] → ∀ patience done,
    p done left right (.ok (closeFront patience done left right))
  /-- A comparison of the first members hands it on, whichever of them is taken. -/
  compare : ∀ {done left right x y} {next : Bool → Outcome (Merged α)},
    p (y :: done) (x :: left) right (next true) → p (x :: done) left (y :: right) (next false) →
    p done (x :: left) (y :: right) (precedes y x >>= next)
  /-- A leap over the first run hands it on, however far it goes. -/
  leapLeft : ∀ {done left right y} {next : Nat → Outcome (Merged α)},
    (∀ k, p (y :: (left.take k).reverse ++ done) (left.drop k) right (next k)) →
    p done left (y :: right) (placeAfter precedes y left 0 >>= next)
  /-- A leap over the second run hands it on, however far it goes. -/
  leapRight : ∀ {done left right x} {next : Nat → Outcome (Merged α)},
    (∀ m, p (x :: (right.take m).reverse ++ done) left (right.drop m) (next m)) →
    p done (x :: left) right (placeBefore precedes x right 0 >>= next)

/-- What the steps of a merge from the front hand on holds of each of the three ways to go on with
one, by induction on how they call each other. -/
theorem FrontSteps.all (h : FrontSteps precedes p) :
    (∀ patience fromLeft fromRight done left right, p done left right
      (alternateFront precedes patience fromLeft fromRight done left right)) ∧
    (∀ patience done left right, p done left right
      (leapLeftFront precedes patience done left right)) ∧
    ∀ patience k done left right, p done left right
      (leapRightFront precedes patience k done left right) := by
  apply alternateFront.mutual_induct
  case case1 =>
    intro patience fromLeft fromRight done x x' left y right hleap halternate hleap' halternate'
    rw [alternateFront]
    refine h.compare ?_ ?_
    · rw [if_pos rfl]
      split
      · exact hleap
      · exact halternate
    · rw [if_neg (by decide)]
      split
      · exact hleap'
      · exact halternate'
  case case2 =>
    intro patience fromLeft fromRight done left right hshort
    have hfew := few_of_not_cons hshort
    rw [(mergeFront_close precedes hfew patience done).1]
    exact h.close hfew patience done
  case case3 =>
    intro patience done x x' left y right hnext
    rw [leapLeftFront]
    exact h.leapLeft hnext
  case case4 =>
    intro patience done left right hshort
    have hfew := few_of_not_cons hshort
    rw [(mergeFront_close precedes hfew patience done).2.1]
    exact h.close hfew patience done
  case case5 =>
    intro patience k done x x' left y right hleap halternate
    rw [leapRightFront]
    refine h.leapRight fun m => ?_
    dsimp only
    split
    · next hend => exact h.close (by simpa using hend) patience _
    · split
      · exact hleap m
      · exact halternate m
  case case6 =>
    intro patience k done left right hshort
    have hfew := few_of_not_cons hshort
    rw [(mergeFront_close precedes hfew patience done).2.2]
    exact h.close hfew patience done

/-- A statement about the members that are merged already, those that are left of two runs and the
result, as the steps of a merge from the back hand it on. Both runs come with their last members
first. -/
structure BackSteps (precedes : α → α → Outcome Bool)
    (p : List α → List α → List α → Outcome (Merged α) → Prop) : Prop where
  /-- It holds where the first run is used up, or the second one has no more than one member left. -/
  close : ∀ {left right}, right.length ≤ 1 ∨ left = [] → ∀ patience done,
    p done left right (.ok (closeBack patience done left right))
  /-- A comparison of the last members hands it on, whichever of them is taken. -/
  compare : ∀ {done left right x y} {next : Bool → Outcome (Merged α)},
    p (x :: done) left (y :: right) (next true) → p (y :: done) (x :: left) right (next false) →
    p done (x :: left) (y :: right) (precedes y x >>= next)
  /-- A leap over the first run hands it on, wherever it ends. -/
  leapLeft : ∀ {done left right x y} {next : Nat → Outcome (Merged α)},
    (∀ place, p (y :: ((x :: left).take (left.length + 1 - place)).reverse ++ done)
      ((x :: left).drop (left.length + 1 - place)) right (next place)) →
    p done (x :: left) (y :: right)
      (placeAfter precedes y (x :: left).reverse left.length >>= next)
  /-- A leap over the second run hands it on, wherever it ends. -/
  leapRight : ∀ {done left right x y} {next : Nat → Outcome (Merged α)},
    (∀ place, p (x :: ((y :: right).take (right.length + 1 - place)).reverse ++ done) left
      ((y :: right).drop (right.length + 1 - place)) (next place)) →
    p done (x :: left) (y :: right)
      (placeBefore precedes x (y :: right).reverse right.length >>= next)

/-- What the steps of a merge from the back hand on holds of each of the three ways to go on with
one, by induction on how they call each other. -/
theorem BackSteps.all (h : BackSteps precedes p) :
    (∀ patience fromLeft fromRight done left right, p done left right
      (alternateBack precedes patience fromLeft fromRight done left right)) ∧
    (∀ patience done left right, p done left right
      (leapLeftBack precedes patience done left right)) ∧
    ∀ patience k done left right, p done left right
      (leapRightBack precedes patience k done left right) := by
  apply alternateBack.mutual_induct
  case case1 =>
    intro patience fromLeft fromRight done x left y y' right hleap halternate hleap' halternate'
    rw [alternateBack]
    refine h.compare ?_ ?_
    · rw [if_pos rfl]
      split
      · exact hleap
      · exact halternate
    · rw [if_neg (by decide)]
      split
      · exact hleap'
      · exact halternate'
  case case2 =>
    intro patience fromLeft fromRight done left right hshort
    have hfew := few_of_not_cons_back hshort
    rw [(mergeBack_close precedes hfew patience done).1]
    exact h.close hfew patience done
  case case3 =>
    intro patience done x left y y' right hnext
    rw [leapLeftBack]
    exact h.leapLeft hnext
  case case4 =>
    intro patience done left right hshort
    have hfew := few_of_not_cons_back hshort
    rw [(mergeBack_close precedes hfew patience done).2.1]
    exact h.close hfew patience done
  case case5 =>
    intro patience k done x left y y' right hleap halternate
    rw [leapRightBack]
    refine h.leapRight fun place => ?_
    dsimp only
    split
    · next hend => exact h.close (by simpa [or_comm] using hend) patience _
    · split
      · exact hleap place
      · exact halternate place
  case case6 =>
    intro patience k done left right hshort
    have hfew := few_of_not_cons_back hshort
    rw [(mergeBack_close precedes hfew patience done).2.2]
    exact h.close hfew patience done

end ResourceAtlas.Sorting
