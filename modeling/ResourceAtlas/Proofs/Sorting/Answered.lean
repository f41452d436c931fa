import ResourceAtlas.Proofs.Sorting.Natural

/-!
# Ordering breaks off with its comparison only

Members are ordered by nothing but comparisons, so a comparison that answers for any two of them
orders them, consistent or not.
-/

namespace ResourceAtlas.Sorting

variable {α : Type} {precedes : α → α → Outcome Bool} {only : Fault → Prop}

section Search

variable {test : Nat → Outcome Bool}

/-- A search by halves breaks off as its test does, by induction on the distance. -/
theorem breaksWith_bisect (htest : ∀ i, BreaksWith (test i) only) (low high : Nat) :
    BreaksWith (bisect test low high) only := by
  induction hn : high - low using Nat.strongRecOn generalizing low high with
  | ind n ih =>
    rw [bisect]
    split
    · refine (htest _).bind fun b => ?_
      split
      · exact ih _ (by omega) _ _ rfl
      · exact ih _ (by omega) _ _ rfl
    · exact .ok _

/-- Steps that double break off as their test does, by induction on how far is left. -/
theorem breaksWith_stride (htest : ∀ i, BreaksWith (test i) only) (most last next : Nat) :
    BreaksWith (stride test most last next) only := by
  induction hn : most - next using Nat.strongRecOn generalizing last next with
  | ind n ih =>
    rw [stride]
    split
    · refine (htest _).bind fun b => ?_
      split
      · exact ih _ (by omega) _ _ rfl
      · exact .ok _
    · exact .ok _

/-- A search from a hint breaks off as its test does. -/
theorem breaksWith_gallop (htest : ∀ i, BreaksWith (test i) only) (count hint : Nat) :
    BreaksWith (gallop test count hint) only := by
  refine (htest _).bind fun b => ?_
  split
  · exact (breaksWith_stride (fun i => htest _) _ _ _).bind fun _ => breaksWith_bisect htest _ _
  · exact (breaksWith_stride (fun i => (htest _).map _) _ _ _).bind fun _ =>
      breaksWith_bisect htest _ _

end Search

variable (hprecedes : ∀ x y, BreaksWith (precedes x y) only)
include hprecedes

section Merge

/-- A place after equals is looked for with comparisons. -/
theorem breaksWith_placeAfter (x : α) (run : List α) (hint : Nat) :
    BreaksWith (placeAfter precedes x run hint) only := by
  refine breaksWith_gallop (fun i => ?_) _ _
  cases run[i]? with
  | none => exact .ok _
  | some y => exact (hprecedes x y).map _

/-- A place before equals is looked for with comparisons. -/
theorem breaksWith_placeBefore (x : α) (run : List α) (hint : Nat) :
    BreaksWith (placeBefore precedes x run hint) only := by
  refine breaksWith_gallop (fun i => ?_) _ _
  cases run[i]? with
  | none => exact .ok _
  | some y => exact hprecedes y x

/-- Every step of a merge from the front breaks off as comparisons do. -/
theorem breaksWith_front : FrontSteps precedes fun _ _ _ result => BreaksWith result only where
  close _ _ _ := .ok _
  compare := by
    intro done left right x y next hright hleft
    refine (hprecedes y x).bind fun b => ?_
    cases b with
    | true => exact hright
    | false => exact hleft
  leapLeft hnext := (breaksWith_placeAfter hprecedes _ _ _).bind hnext
  leapRight hnext := (breaksWith_placeBefore hprecedes _ _ _).bind hnext

/-- Every step of a merge from the back breaks off as comparisons do. -/
theorem breaksWith_back : BackSteps precedes fun _ _ _ result => BreaksWith result only where
  close _ _ _ := .ok _
  compare := by
    intro done left right x y next hleft hright
    refine (hprecedes y x).bind fun b => ?_
    cases b with
    | true => exact hleft
    | false => exact hright
  leapLeft hnext := (breaksWith_placeAfter hprecedes _ _ _).bind hnext
  leapRight hnext := (breaksWith_placeBefore hprecedes _ _ _).bind hnext

/-- A merge of two runs breaks off as comparisons do. -/
theorem breaksWith_mergeRuns (patience : Nat) (left right : List α) :
    BreaksWith (mergeRuns precedes patience left right) only := by
  unfold mergeRuns
  split
  · exact .ok _
  · refine (breaksWith_placeAfter hprecedes _ _ _).bind fun k => ?_
    split
    · exact .ok _
    · refine (breaksWith_placeBefore hprecedes _ _ _).bind fun m => ?_
      have hapart : ∀ left right : List α,
          BreaksWith (mergeApart precedes patience left right) only := by
        intro left right
        unfold mergeApart
        split
        · exact (breaksWith_front hprecedes).all.1 _ _ _ _ _ _
        · exact (breaksWith_back hprecedes).all.1 _ _ _ _ _ _
      split
      · exact .ok _
      · exact (hapart _ _).bind fun _ => .ok _

end Merge

section Runs

/-- How far a run goes is found with comparisons. -/
theorem breaksWith_runLength (down : Bool) (last : α) (rest : List α) :
    BreaksWith (runLength precedes down last rest) only := by
  induction rest generalizing last with
  | nil => exact .ok _
  | cons x rest ih =>
    refine (hprecedes x last).bind fun p => ?_
    split
    · exact (ih x).map _
    · exact .ok _

/-- Members are inserted with comparisons. -/
theorem breaksWith_insertEach (ordered more : List α) :
    BreaksWith (insertEach precedes ordered more) only := by
  induction more generalizing ordered with
  | nil => exact .ok _
  | cons x rest ih =>
    refine (breaksWith_bisect (fun i => ?_) _ _).bind fun place => ih _
    cases ordered[i]? with
    | none => exact .ok _
    | some y => exact (hprecedes x y).map _

/-- The run that members start with is found with comparisons. -/
theorem breaksWith_firstRun (minimum : Nat) (x : α) (rest : List α) :
    BreaksWith (firstRun precedes minimum x rest) only := by
  have hdown : ∀ (down : Bool) (count : Nat), BreaksWith (insertEach precedes
      (if down then (x :: rest.take count).reverse else x :: rest.take count)
      ((rest.drop count).take (minimum - (count + 1)))) only :=
    fun down count => breaksWith_insertEach hprecedes _ _
  unfold firstRun
  cases rest with
  | nil =>
    exact (BreaksWith.ok false).bind fun down => (breaksWith_runLength hprecedes _ _ _).bind
      fun count => (hdown down count).bind fun _ => .ok _
  | cons y rest =>
    exact (hprecedes y x).bind fun down => (breaksWith_runLength hprecedes _ _ _).bind
      fun count => (hdown down count).bind fun _ => .ok _

/-- Room on a pile is made with comparisons, by induction on the pile. -/
theorem breaksWith_makeRoom (power patience : Nat) (runs : List (Run α)) :
    BreaksWith (makeRoom precedes power patience runs) only := by
  induction hn : runs.length using Nat.strongRecOn generalizing patience runs with
  | ind n ih =>
    match runs with
    | [] =>
      rw [makeRoom]
      exact .ok _
    | [run] =>
      rw [makeRoom]
      exact .ok _
    | second :: first :: rest =>
      rw [makeRoom]
      split
      · exact (breaksWith_mergeRuns hprecedes _ _ _).bind fun merged =>
          ih _ (by rw [← hn]; simp) _ _ rfl
      · exact .ok _

/-- A run is put on a pile with comparisons. -/
theorem breaksWith_push (whole start : Nat) (pile : Pile α) (members : List α) :
    BreaksWith (pile.push precedes whole start members) only := by
  unfold Pile.push
  cases pile.runs with
  | nil => exact .ok _
  | cons run rest => exact (breaksWith_makeRoom hprecedes _ _ _).bind fun _ => .ok _

/-- All members are put on a pile with comparisons, by induction on how many there are. -/
theorem breaksWith_pileUp (whole minimum start : Nat) (pile : Pile α) (members : List α) :
    BreaksWith (pileUp precedes whole minimum pile start members) only := by
  induction hn : members.length using Nat.strongRecOn generalizing pile start members with
  | ind n ih =>
    match members with
    | [] =>
      rw [pileUp]
      exact .ok _
    | x :: rest =>
      rw [pileUp]
      refine (breaksWith_firstRun hprecedes _ _ _).bind fun run => ?_
      refine (breaksWith_push hprecedes _ _ _ _).bind fun pile => ?_
      exact ih _ (by rw [← hn, List.length_drop, List.length_cons]; omega) _ _ _ rfl

/-- All runs of a pile are merged with comparisons, by induction on the pile. -/
theorem breaksWith_collapse (patience : Nat) (runs : List (Run α)) :
    BreaksWith (collapse precedes patience runs) only := by
  induction hn : runs.length using Nat.strongRecOn generalizing patience runs with
  | ind n ih =>
    match runs with
    | [] =>
      rw [collapse]
      exact .ok _
    | [run] =>
      rw [collapse]
      exact .ok _
    | [third, second] =>
      rw [collapse]
      exact (breaksWith_mergeRuns hprecedes _ _ _).bind fun _ => .ok _
    | third :: second :: first :: rest =>
      rw [collapse]
      split
      · exact (breaksWith_mergeRuns hprecedes _ _ _).bind fun merged =>
          ih _ (by rw [← hn]; simp) _ _ rfl
      · exact (breaksWith_mergeRuns hprecedes _ _ _).bind fun merged =>
          ih _ (by rw [← hn]; simp) _ _ rfl

/-- Members are ordered with comparisons. -/
theorem breaksWith_sortMembers (members : List α) :
    BreaksWith (sortMembers precedes members) only := by
  unfold sortMembers
  dsimp only
  split
  · exact .ok _
  · exact (breaksWith_pileUp hprecedes _ _ _ _ _).bind fun pile =>
      breaksWith_collapse hprecedes _ _

end Runs

omit hprecedes in
/-- A comparison that answers for any two members orders them. -/
theorem exists_sortMembers {members : List α}
    (h : ∀ x ∈ members, ∀ y ∈ members, ∃ b, precedes x y = .ok b) :
    ∃ all, sortMembers precedes members = .ok all := by
  have hanswers : ∀ x y : {z // z ∈ members},
      BreaksWith (along Subtype.val precedes x y) fun _ => False := by
    intro x y f hf
    obtain ⟨b, hb⟩ := h x.1 x.2 y.1 y.2
    exact (nomatch hb.symm.trans hf)
  have hmembers := sortMembers_map Subtype.val precedes members.attach
  rw [List.attach_map_subtype_val] at hmembers
  have hsorted := breaksWith_sortMembers hanswers members.attach
  cases hs : sortMembers (along Subtype.val precedes) members.attach with
  | error f => exact (hsorted f hs).elim
  | ok all =>
    rw [hs] at hmembers
    exact ⟨_, hmembers⟩

omit hprecedes in
/-- Two members that cannot be compared are not ordered. -/
theorem sortMembers_pair {x y : α} {f : Fault} (h : precedes y x = .error f) :
    sortMembers precedes [x, y] = .error f := by
  unfold sortMembers
  rw [show [x, y].length = 2 from rfl, if_neg (by decide), pileUp, firstRun]
  simp only [h]
  rfl

end ResourceAtlas.Sorting
