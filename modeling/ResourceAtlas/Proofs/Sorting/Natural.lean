import ResourceAtlas.Proofs.Sorting.Rearranged

/-!
# Ordering sees members through the comparison only

Members are ordered alike whatever stands for them: to replace every member by its image and then
order the images is to order the members as their images compare, and then replace them. This holds
for every comparison, consistent or not, and also where it does not answer.
-/

namespace ResourceAtlas.Sorting

variable {α β : Type}

/-- The comparison of members as their images compare. -/
def along (f : α → β) (precedes : β → β → Outcome Bool) : α → α → Outcome Bool :=
  fun x y => precedes (f x) (f y)

section Steps

variable {ε γ δ : Type}

/-- To change what steps give is to change what the last of them gives. -/
theorem map_bind (x : Except ε γ) (next : γ → Except ε δ) {ζ : Type} (g : δ → ζ) :
    (x >>= next).map g = x >>= fun a => (next a).map g := by
  cases x <;> rfl

/-- To change a result is to give what it is changed to. -/
theorem map_ok (a : γ) (g : γ → δ) : (Except.ok a : Except ε γ).map g = .ok (g a) :=
  rfl

/-- To go on from a changed result is to change it on the way. -/
theorem bind_of_map (x : Except ε γ) {ζ : Type} (g : γ → δ) (next : δ → Except ε ζ) :
    (x.map g) >>= next = x >>= fun a => next (g a) := by
  cases x <;> rfl

end Steps

/-- Images of merged members. -/
def Merged.map (f : α → β) (merged : Merged α) : Merged β :=
  ⟨merged.members.map f, merged.patience⟩

/-- Images of the members of a run. -/
def Run.map (f : α → β) (run : Run α) : Run β :=
  { run with members := run.members.map f }

/-- Images of the members of a pile. -/
def Pile.map (f : α → β) (pile : Pile α) : Pile β :=
  { pile with runs := pile.runs.map (Run.map f) }

variable (f : α → β) (precedes : β → β → Outcome Bool)

section Merge

/-- The place of an image is the place of the member. -/
theorem placeAfter_map (x : α) (run : List α) (hint : Nat) :
    placeAfter precedes (f x) (run.map f) hint = placeAfter (along f precedes) x run hint := by
  unfold placeAfter
  rw [List.length_map]
  congr 1
  funext i
  rw [List.getElem?_map]
  cases run[i]? <;> rfl

/-- The place of an image ahead of its equals is the place of the member. -/
theorem placeBefore_map (x : α) (run : List α) (hint : Nat) :
    placeBefore precedes (f x) (run.map f) hint = placeBefore (along f precedes) x run hint := by
  unfold placeBefore
  rw [List.length_map]
  congr 1
  funext i
  rw [List.getElem?_map]
  cases run[i]? <;> rfl

/-- The end of a merge from the front keeps images. -/
theorem closeFront_map (patience : Nat) (done left right : List α) :
    closeFront patience (done.map f) (left.map f) (right.map f) =
      (closeFront patience done left right).map f := by
  match left with
  | [] => simp [closeFront, Merged.map]
  | [x] => simp [closeFront, Merged.map]
  | x :: x' :: left => simp [closeFront, Merged.map]

/-- The end of a merge from the back keeps images. -/
theorem closeBack_map (patience : Nat) (done left right : List α) :
    closeBack patience (done.map f) (left.map f) (right.map f) =
      (closeBack patience done left right).map f := by
  match right with
  | [] => simp [closeBack, Merged.map]
  | [y] => simp [closeBack, Merged.map]
  | y :: y' :: right => simp [closeBack, Merged.map]

/-- Each of the three ways to go on with a merge from the front keeps images, by induction on how they
call each other. -/
theorem mergeFront_map :
    (∀ patience fromLeft fromRight (done left right : List α),
      alternateFront precedes patience fromLeft fromRight (done.map f) (left.map f) (right.map f) =
        (alternateFront (along f precedes) patience fromLeft fromRight done left right).map
          (Merged.map f)) ∧
    (∀ patience (done left right : List α),
      leapLeftFront precedes patience (done.map f) (left.map f) (right.map f) =
        (leapLeftFront (along f precedes) patience done left right).map (Merged.map f)) ∧
    ∀ patience k (done left right : List α),
      leapRightFront precedes patience k (done.map f) (left.map f) (right.map f) =
        (leapRightFront (along f precedes) patience k done left right).map (Merged.map f) := by
  have hfew : ∀ {left right : List α}, left.length ≤ 1 ∨ right = [] →
      (left.map f).length ≤ 1 ∨ right.map f = [] := by simp
  apply alternateFront.mutual_induct
  case case1 =>
    intro patience fromLeft fromRight done x x' left y right hleap halternate hleap' halternate'
    simp only [List.map_cons] at hleap halternate hleap' halternate' ⊢
    rw [alternateFront, alternateFront, map_bind]
    simp only [along]
    congr 1
    funext b
    simp only [apply_ite (Except.map (Merged.map f)), hleap, halternate, hleap', halternate']
  case case2 =>
    intro patience fromLeft fromRight done left right hshort
    have hclose := few_of_not_cons hshort
    rw [(mergeFront_close precedes (hfew hclose) patience (done.map f)).1, closeFront_map,
      (mergeFront_close (along f precedes) hclose patience done).1, map_ok]
  case case3 =>
    intro patience done x x' left y right hnext
    have hplace := placeAfter_map f precedes y (x :: x' :: left) 0
    simp only [List.map_cons, List.map_append, List.map_reverse, List.map_take,
      List.map_drop] at hnext hplace ⊢
    rw [leapLeftFront, leapLeftFront, map_bind, hplace]
    congr 1
    funext k
    exact hnext k
  case case4 =>
    intro patience done left right hshort
    have hclose := few_of_not_cons hshort
    rw [(mergeFront_close precedes (hfew hclose) patience (done.map f)).2.1, closeFront_map,
      (mergeFront_close (along f precedes) hclose patience done).2.1, map_ok]
  case case5 =>
    intro patience k done x x' left y right hleap halternate
    have hclose := fun m => closeFront_map f patience
      (x :: ((y :: right).take m).reverse ++ done) (x' :: left) ((y :: right).drop m)
    have hplace := placeBefore_map f precedes x (y :: right) 0
    simp only [List.map_cons, List.map_append, List.map_reverse, List.map_take,
      List.map_drop] at hleap halternate hclose hplace ⊢
    rw [leapRightFront, leapRightFront, map_bind, hplace]
    congr 1
    funext m
    have hempty : ((f y :: right.map f).drop m).isEmpty = ((y :: right).drop m).isEmpty := by
      rw [← List.map_cons, ← List.map_drop, List.isEmpty_map]
    simp only [apply_ite (Except.map (Merged.map f)), map_ok, hleap, halternate, hclose, hempty,
      List.isEmpty_map]
  case case6 =>
    intro patience k done left right hshort
    have hclose := few_of_not_cons hshort
    rw [(mergeFront_close precedes (hfew hclose) patience (done.map f)).2.2, closeFront_map,
      (mergeFront_close (along f precedes) hclose patience done).2.2, map_ok]

/-- Each of the three ways to go on with a merge from the back keeps images, by induction on how they
call each other. -/
theorem mergeBack_map :
    (∀ patience fromLeft fromRight (done left right : List α),
      alternateBack precedes patience fromLeft fromRight (done.map f) (left.map f) (right.map f) =
        (alternateBack (along f precedes) patience fromLeft fromRight done left right).map
          (Merged.map f)) ∧
    (∀ patience (done left right : List α),
      leapLeftBack precedes patience (done.map f) (left.map f) (right.map f) =
        (leapLeftBack (along f precedes) patience done left right).map (Merged.map f)) ∧
    ∀ patience k (done left right : List α),
      leapRightBack precedes patience k (done.map f) (left.map f) (right.map f) =
        (leapRightBack (along f precedes) patience k done left right).map (Merged.map f) := by
  have hfew : ∀ {left right : List α}, right.length ≤ 1 ∨ left = [] →
      (right.map f).length ≤ 1 ∨ left.map f = [] := by simp
  apply alternateBack.mutual_induct
  case case1 =>
    intro patience fromLeft fromRight done x left y y' right hleap halternate hleap' halternate'
    simp only [List.map_cons] at hleap halternate hleap' halternate' ⊢
    rw [alternateBack, alternateBack, map_bind]
    simp only [along]
    congr 1
    funext b
    simp only [apply_ite (Except.map (Merged.map f)), hleap, halternate, hleap', halternate']
  case case2 =>
    intro patience fromLeft fromRight done left right hshort
    have hclose := few_of_not_cons_back hshort
    rw [(mergeBack_close precedes (hfew hclose) patience (done.map f)).1, closeBack_map,
      (mergeBack_close (along f precedes) hclose patience done).1, map_ok]
  case case3 =>
    intro patience done x left y y' right hnext
    have hplace := placeAfter_map f precedes y (x :: left).reverse left.length
    simp only [List.map_cons, List.map_append, List.map_reverse, List.map_take,
      List.map_drop] at hnext hplace ⊢
    rw [leapLeftBack, leapLeftBack, map_bind, List.length_map, hplace]
    congr 1
    funext place
    exact hnext place
  case case4 =>
    intro patience done left right hshort
    have hclose := few_of_not_cons_back hshort
    rw [(mergeBack_close precedes (hfew hclose) patience (done.map f)).2.1, closeBack_map,
      (mergeBack_close (along f precedes) hclose patience done).2.1, map_ok]
  case case5 =>
    intro patience k done x left y y' right hleap halternate
    have hclose := fun m => closeBack_map f patience
      (x :: ((y :: y' :: right).take m).reverse ++ done) left ((y :: y' :: right).drop m)
    have hplace := placeBefore_map f precedes x (y :: y' :: right).reverse (right.length + 1)
    simp only [List.map_cons, List.map_append, List.map_reverse, List.map_take,
      List.map_drop] at hleap halternate hclose hplace ⊢
    rw [leapRightBack, leapRightBack, map_bind, List.length_map, hplace]
    congr 1
    funext place
    have hlength : ∀ m, ((f y :: f y' :: right.map f).drop m).length =
        ((y :: y' :: right).drop m).length := by simp
    simp only [apply_ite (Except.map (Merged.map f)), map_ok, hleap, halternate, hclose, hlength,
      List.isEmpty_map]
  case case6 =>
    intro patience k done left right hshort
    have hclose := few_of_not_cons_back hshort
    rw [(mergeBack_close precedes (hfew hclose) patience (done.map f)).2.2, closeBack_map,
      (mergeBack_close (along f precedes) hclose patience done).2.2, map_ok]

/-- A merge of two runs that are not in order yet keeps images. -/
theorem mergeApart_map (patience : Nat) (left right : List α) :
    mergeApart precedes patience (left.map f) (right.map f) =
      (mergeApart (along f precedes) patience left right).map (Merged.map f) := by
  unfold mergeApart
  dsimp only
  rw [apply_ite (Except.map (Merged.map f)), List.length_map, List.length_map]
  have hfront := (mergeFront_map f precedes).1 patience 0 0 (right.take 1) left (right.drop 1)
  have hback := (mergeBack_map f precedes).1 patience 0 0 (left.reverse.take 1) (left.reverse.drop 1)
    right.reverse
  rw [← hfront, ← hback]
  simp only [List.map_take, List.map_drop, List.map_reverse]

/-- A merge of two runs keeps images. -/
theorem mergeRuns_map (patience : Nat) (left right : List α) :
    mergeRuns precedes patience (left.map f) (right.map f) =
      (mergeRuns (along f precedes) patience left right).map (Merged.map f) := by
  unfold mergeRuns
  rw [List.head?_map]
  cases right.head? with
  | none => rfl
  | some y =>
    simp only [Option.map_some]
    rw [map_bind, placeAfter_map]
    congr 1
    funext k
    rw [← List.map_drop, List.getLast?_map]
    cases (left.drop k).getLast? with
    | none => simp [Except.map, Merged.map]
    | some x =>
      simp only [Option.map_some]
      rw [map_bind, placeBefore_map, List.length_map]
      congr 1
      funext m
      rw [apply_ite (Except.map (Merged.map f)), map_bind, ← List.map_take, mergeApart_map,
        bind_of_map]
      simp [Except.map, Merged.map]

end Merge

section Runs

/-- How many images go on in a direction is how many members do. -/
theorem runLength_map (down : Bool) (last : α) (rest : List α) :
    runLength precedes down (f last) (rest.map f) = runLength (along f precedes) down last rest := by
  induction rest generalizing last with
  | nil => rfl
  | cons x rest ih =>
    rw [List.map_cons, runLength, runLength, ih]
    rfl

/-- Inserting members one by one keeps images. -/
theorem insertEach_map (ordered more : List α) :
    insertEach precedes (ordered.map f) (more.map f) =
      (insertEach (along f precedes) ordered more).map (List.map f) := by
  induction more generalizing ordered with
  | nil => rfl
  | cons x rest ih =>
    have hrest : ∀ place, insertEach precedes
        ((ordered.map f).take place ++ f x :: (ordered.map f).drop place) (rest.map f) =
        (insertEach (along f precedes) (ordered.take place ++ x :: ordered.drop place) rest).map
          (List.map f) := by
      intro place
      rw [← ih, List.map_append, List.map_cons, List.map_take, List.map_drop]
    rw [List.map_cons, insertEach, insertEach, map_bind, List.length_map]
    simp only [hrest]
    congr 2
    funext i
    rw [List.getElem?_map]
    cases ordered[i]? <;> rfl

/-- The run that members start with keeps images. -/
theorem firstRun_map (minimum : Nat) (x : α) (rest : List α) :
    firstRun precedes minimum (f x) (rest.map f) =
      (firstRun (along f precedes) minimum x rest).map (Prod.map (List.map f) id) := by
  have hgo : ∀ down : Bool, (do
      let count ← runLength precedes down (f x) (rest.map f)
      let natural := f x :: (rest.map f).take count
      let ordered := if down then natural.reverse else natural
      let more := ((rest.map f).drop count).take (minimum - (count + 1))
      let run ← insertEach precedes ordered more
      .ok (run, max count (minimum - 1)) : Outcome (List β × Nat)) = (do
        let count ← runLength (along f precedes) down x rest
        let natural := x :: rest.take count
        let ordered := if down then natural.reverse else natural
        let more := (rest.drop count).take (minimum - (count + 1))
        let run ← insertEach (along f precedes) ordered more
        .ok (run, max count (minimum - 1)) : Outcome (List α × Nat)).map
          (Prod.map (List.map f) id) := by
    intro down
    rw [runLength_map, map_bind]
    congr 1
    funext count
    have hnatural : (if down then (f x :: (rest.map f).take count).reverse
        else f x :: (rest.map f).take count) =
        (if down then (x :: rest.take count).reverse else x :: rest.take count).map f := by
      split <;> simp
    dsimp only
    rw [hnatural, ← List.map_drop, ← List.map_take, insertEach_map, map_bind, bind_of_map]
    rfl
  unfold firstRun
  cases rest with
  | nil => exact hgo false
  | cons y rest =>
    rw [map_bind, List.map_cons]
    exact congrArg (precedes (f y) (f x) >>= ·) (funext hgo)

/-- Merging runs on top of a pile keeps images, by induction on the pile. -/
theorem makeRoom_map (power patience : Nat) (runs : List (Run α)) :
    makeRoom precedes power patience (runs.map (Run.map f)) =
      (makeRoom (along f precedes) power patience runs).map (Pile.map f) := by
  induction hn : runs.length using Nat.strongRecOn generalizing patience runs with
  | ind n ih =>
    match runs with
    | [] =>
      rw [List.map_nil, makeRoom, makeRoom]
      rfl
    | [run] =>
      rw [List.map_singleton, makeRoom, makeRoom]
      rfl
    | second :: first :: rest =>
      have hmerge : mergeRuns precedes patience (first.map f).members (second.map f).members =
          (mergeRuns (along f precedes) patience first.members second.members).map
            (Merged.map f) := mergeRuns_map f precedes patience first.members second.members
      have hrest := fun merged : Merged α =>
        ih _ (by rw [← hn]; simp) merged.patience (⟨first.start, merged.members, 0⟩ :: rest) rfl
      rw [List.map_cons, List.map_cons, makeRoom, makeRoom, apply_ite (Except.map (Pile.map f)),
        map_bind, hmerge, bind_of_map]
      simp only [← hrest]
      rfl

/-- Putting a run on a pile keeps images. -/
theorem push_map (whole start : Nat) (pile : Pile α) (members : List α) :
    (pile.map f).push precedes whole start (members.map f) =
      (pile.push (along f precedes) whole start members).map (Pile.map f) := by
  obtain ⟨runs, patience⟩ := pile
  unfold Pile.push Pile.map
  cases runs with
  | nil => rfl
  | cons run rest =>
    have hpower : borderPower whole (run.map f) (members.map f).length =
        borderPower whole run members.length := by
      simp [borderPower, Run.map]
    have hroom := makeRoom_map f precedes (borderPower whole run members.length) patience
      (run :: rest)
    simp only [List.map_cons] at hroom ⊢
    rw [map_bind, hpower, hroom, bind_of_map]
    rfl

/-- Putting all members on a pile run by run keeps images, by induction on how many there are. -/
theorem pileUp_map (whole minimum start : Nat) (pile : Pile α) (members : List α) :
    pileUp precedes whole minimum (pile.map f) start (members.map f) =
      (pileUp (along f precedes) whole minimum pile start members).map (Pile.map f) := by
  induction hn : members.length using Nat.strongRecOn generalizing pile start members with
  | ind n ih =>
    match members with
    | [] =>
      rw [List.map_nil, pileUp, pileUp]
      rfl
    | x :: rest =>
      rw [List.map_cons, pileUp, pileUp, map_bind, firstRun_map, bind_of_map]
      congr 1
      funext run
      obtain ⟨run, following⟩ := run
      have hrest := fun pile => ih (rest.drop following).length
        (by rw [← hn, List.length_drop, List.length_cons]; omega) (start + run.length) pile _ rfl
      have hpush := push_map f precedes whole start pile run
      simp only [Prod.map, id, map_bind, hpush, bind_of_map, List.length_map]
      simp only [← List.map_drop, hrest]

/-- Merging all runs of a pile keeps images, by induction on the pile. -/
theorem collapse_map (patience : Nat) (runs : List (Run α)) :
    collapse precedes patience (runs.map (Run.map f)) =
      (collapse (along f precedes) patience runs).map (List.map f) := by
  induction hn : runs.length using Nat.strongRecOn generalizing patience runs with
  | ind n ih =>
    match runs with
    | [] =>
      rw [List.map_nil, collapse, collapse]
      rfl
    | [run] =>
      rw [List.map_singleton, collapse, collapse]
      rfl
    | [third, second] =>
      have hmerge : mergeRuns precedes patience (second.map f).members (third.map f).members =
          (mergeRuns (along f precedes) patience second.members third.members).map
            (Merged.map f) := mergeRuns_map f precedes patience second.members third.members
      rw [List.map_cons, List.map_singleton, collapse, collapse, map_bind, hmerge, bind_of_map]
      rfl
    | third :: second :: first :: rest =>
      have hmerge : mergeRuns precedes patience (second.map f).members (third.map f).members =
          (mergeRuns (along f precedes) patience second.members third.members).map
            (Merged.map f) := mergeRuns_map f precedes patience second.members third.members
      have hmerge' : mergeRuns precedes patience (first.map f).members (second.map f).members =
          (mergeRuns (along f precedes) patience first.members second.members).map
            (Merged.map f) := mergeRuns_map f precedes patience first.members second.members
      have hrest := fun merged : Merged α => ih _ (by rw [← hn]; simp) merged.patience
        (⟨second.start, merged.members, 0⟩ :: first :: rest) rfl
      have hrest' := fun merged : Merged α => ih _ (by rw [← hn]; simp) merged.patience
        (third :: ⟨first.start, merged.members, 0⟩ :: rest) rfl
      have hlength : ∀ run : Run α, (run.map f).members.length = run.members.length :=
        fun run => List.length_map f
      rw [List.map_cons, List.map_cons, List.map_cons, collapse, collapse,
        apply_ite (Except.map (List.map f)), map_bind, map_bind, hmerge, hmerge', bind_of_map,
        bind_of_map, hlength, hlength]
      simp only [← hrest, ← hrest']
      rfl

end Runs

/-- Images are ordered as the members are that compare as they do. -/
theorem sortMembers_map (members : List α) :
    sortMembers precedes (members.map f) =
      (sortMembers (along f precedes) members).map (List.map f) := by
  unfold sortMembers
  dsimp only
  rw [List.length_map, apply_ite (Except.map (List.map f)), map_bind,
    show (⟨[], leapLength⟩ : Pile β) = Pile.map f ⟨[], leapLength⟩ from rfl, pileUp_map,
    bind_of_map]
  congr 2
  funext pile
  exact collapse_map f precedes pile.patience pile.runs

end ResourceAtlas.Sorting
