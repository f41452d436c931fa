import ResourceAtlas.Proofs.Sorting.Merge

/-!
# Ordering is stable

With a comparison that always answers, and consistently, ordering members gives a result: no member
precedes one ahead of it, and members that do not precede each other stay in the order in which they
came.
-/

namespace ResourceAtlas.Sorting

variable {α : Type} {before : α → α → Bool}

/-- Two members do not precede each other. -/
def alike (before : α → α → Bool) (z x : α) : Bool :=
  !before z x && !before x z

/-- A list is the stable arrangement of another one: it is in order, and members that are alike stand
as they stood. -/
structure Arranged (before : α → α → Bool) (source out : List α) : Prop where
  /-- No member precedes one ahead of it. -/
  ordered : Ordered before out
  /-- Members that are alike stand as they stood. -/
  stable : ∀ z, out.filter (alike before z) = source.filter (alike before z)

/-- Of what is like a member nothing follows a member that it precedes. -/
theorem alike_eq_false (hc : Consistent before) {z y a : α} (hzy : alike before z y = true)
    (hya : before y a = true) : alike before z a = false := by
  simp only [alike, Bool.and_eq_true, Bool.not_eq_true'] at hzy
  have hza := hc.lt_of_le_of_lt hzy.2 hya
  simp [alike, hza]

/-- A stable merge of ordered runs has members that are alike in their order, those of the first run
ahead of those of the second one. -/
theorem filter_stableMerge (hc : Consistent before) {left right : List α}
    (hleft : Ordered before left) (z : α) :
    (stableMerge before left right).filter (alike before z) =
      left.filter (alike before z) ++ right.filter (alike before z) := by
  induction left generalizing right with
  | nil => simp
  | cons x left ihleft =>
    induction right with
    | nil => simp
    | cons y right ihright =>
      rw [stableMerge_cons_cons]
      cases hyx : before y x with
      | false =>
        have hrest : (stableMerge before left (y :: right)).filter _ = _ :=
          ihleft (hleft.sublist (List.sublist_cons_self x left))
        cases hzx : alike before z x <;> simp [hzx, hrest]
      | true =>
        rw [if_pos rfl, List.filter_cons, ihright]
        cases hzy : alike before z y with
        | false => simp [hzy]
        | true =>
          -- All of the first run comes behind the member that is taken, so nothing of it is like it.
          have hnone : (x :: left).filter (alike before z) = [] := by
            rw [List.filter_eq_nil_iff]
            intro a ha
            have hxa : before a x = false := by
              rcases List.mem_cons.mp ha with rfl | ha
              · exact hc.irrefl a
              · exact List.rel_of_pairwise_cons hleft ha
            simp [alike_eq_false hc hzy (hc.lt_of_lt_of_le hyx hxa)]
          simp [hnone, hzy]

namespace Arranged

variable {source source' out out' : List α}

/-- Members in order are arranged. -/
theorem refl (h : Ordered before source) : Arranged before source source :=
  ⟨h, fun _ => rfl⟩

/-- The stable merge of two arrangements arranges all members. -/
theorem merge (hc : Consistent before) (h : Arranged before source out)
    (h' : Arranged before source' out') :
    Arranged before (source ++ source') (stableMerge before out out') := by
  refine ⟨?_, fun z => ?_⟩
  · have htrans : ∀ a b c, (!before b a) = true → (!before c b) = true → (!before c a) = true := by
      simpa using fun a b c => hc.trans (a := a) (b := b) (c := c)
    have htotal : ∀ a b, (!before b a || !before a b) = true := by
      intro a b
      cases hba : before b a with
      | false => rfl
      | true => simp [hc.asymm hba]
    have hout : out.Pairwise fun a b => (!before b a) = true := by
      simpa [Ordered] using h.ordered
    have hout' : out'.Pairwise fun a b => (!before b a) = true := by
      simpa [Ordered] using h'.ordered
    have hmerge := List.pairwise_merge htrans htotal out out' hout hout'
    simpa [Ordered, stableMerge] using hmerge
  · rw [filter_stableMerge hc h.ordered, h.stable, h'.stable, List.filter_append]

/-- Members of which each precedes all ahead of it are arranged the other way round. -/
theorem reverse (hc : Consistent before) (h : source.Pairwise fun a b => before b a = true) :
    Arranged before source source.reverse := by
  refine ⟨?_, fun z => ?_⟩
  · exact List.pairwise_reverse.mpr (h.imp fun {a b} hba => hc.asymm hba)
  · rw [List.filter_reverse]
    induction source with
    | nil => rfl
    | cons x rest ih =>
      obtain ⟨hx, hrest⟩ := List.pairwise_cons.mp h
      cases hzx : alike before z x with
      | false => simpa [hzx] using ih hrest
      | true =>
        have hnone : rest.filter (alike before z) = [] := by
          rw [List.filter_eq_nil_iff]
          intro a ha hza
          have hzx' := alike_eq_false hc hza (hx a ha)
          rw [hzx] at hzx'
          contradiction
        simp [hzx, hnone]

end Arranged

section Runs

/-- Members inserted one by one into an arrangement are arranged with it. -/
theorem insertEach_ok (hc : Consistent before) {source ordered : List α} (more : List α)
    (h : Arranged before source ordered) :
    ∃ run, insertEach (answering before) ordered more = .ok run ∧
      Arranged before (source ++ more) run := by
  induction more generalizing source ordered with
  | nil => exact ⟨ordered, rfl, by simpa using h⟩
  | cons x rest ih =>
    obtain ⟨k, hk, htest, htake, hdrop⟩ := exists_place_after hc h.ordered x
    have hone : Arranged before [x] [x] := .refl (List.pairwise_singleton _ x)
    have hplaced := h.merge hc hone
    rw [stableMerge_leapLeft htake hdrop, stableMerge_nil_right] at hplaced
    obtain ⟨run, hrun, harranged⟩ := ih hplaced
    refine ⟨run, ?_, by simpa using harranged⟩
    exact bind_eq_ok.mpr ⟨k, bisect_eq (htest _) (Nat.zero_le k) hk, hrun⟩

/-- Members that are counted as going on in a direction do so, each from all ahead of it. -/
theorem runLength_ok (hc : Consistent before) (down : Bool) (last : α) (rest : List α) :
    ∃ count, runLength (answering before) down last rest = .ok count ∧
      (last :: rest.take count).Pairwise fun a b => before b a = down := by
  induction rest generalizing last with
  | nil => exact ⟨0, rfl, List.pairwise_singleton _ last⟩
  | cons x rest ih =>
    rw [runLength]
    simp only [answering, bind, Except.bind]
    split
    · next hdown =>
      obtain ⟨count, hcount, hpairwise⟩ := ih x
      refine ⟨count + 1, by simp [hcount, Except.map], ?_⟩
      rw [List.take_succ_cons, List.pairwise_cons]
      refine ⟨?_, hpairwise⟩
      intro b hb
      rcases List.mem_cons.mp hb with rfl | hb
      · exact hdown
      · have hbx := List.rel_of_pairwise_cons hpairwise hb
        cases down with
        | false => exact hc.trans hdown hbx
        | true => exact hc.lt_of_lt_of_le hbx (hc.asymm hdown)
    · exact ⟨0, rfl, List.pairwise_singleton _ last⟩

/-- The run that members start with is an arrangement of the first of them. -/
theorem firstRun_ok (hc : Consistent before) (minimum : Nat) (x : α) (rest : List α) :
    ∃ run following, firstRun (answering before) minimum x rest = .ok (run, following) ∧
      Arranged before (x :: rest.take following) run := by
  have hgo : ∀ down : Bool, ∃ run following, (do
      let count ← runLength (answering before) down x rest
      let natural := x :: rest.take count
      let ordered := if down then natural.reverse else natural
      let more := (rest.drop count).take (minimum - (count + 1))
      let run ← insertEach (answering before) ordered more
      .ok (run, max count (minimum - 1)) : Outcome (List α × Nat)) = .ok (run, following) ∧
        Arranged before (x :: rest.take following) run := by
    intro down
    obtain ⟨count, hcount, hnatural⟩ := runLength_ok hc down x rest
    have harranged : Arranged before (x :: rest.take count)
        (if down then (x :: rest.take count).reverse else x :: rest.take count) := by
      cases down with
      | false => exact .refl hnatural
      | true => exact .reverse hc hnatural
    obtain ⟨run, hrun, hfilled⟩ :=
      insertEach_ok hc ((rest.drop count).take (minimum - (count + 1))) harranged
    have hmembers : x :: rest.take count ++ (rest.drop count).take (minimum - (count + 1)) =
        x :: rest.take (max count (minimum - 1)) := by
      rw [List.cons_append, ← List.take_add,
        show count + (minimum - (count + 1)) = max count (minimum - 1) by omega]
    rw [hmembers] at hfilled
    refine ⟨run, max count (minimum - 1), ?_, hfilled⟩
    exact bind_eq_ok.mpr ⟨count, hcount, bind_eq_ok.mpr ⟨run, hrun, rfl⟩⟩
  cases rest with
  | nil => exact hgo false
  | cons y rest => exact hgo (before y x)

/-- Runs on a pile, the last one first, are arrangements of the parts of a list. -/
inductive Stacked (before : α → α → Bool) : List α → List (Run α) → Prop
  /-- No runs are arrangements of no members. -/
  | nil : Stacked before [] []
  /-- One more run is an arrangement of the members that come next. -/
  | cons {source part : List α} {rest : List (Run α)} (run : Run α)
      (hrest : Stacked before source rest) (hrun : Arranged before part run.members) :
      Stacked before (source ++ part) (run :: rest)

/-- Merging runs on top of a pile gives a pile of the same members, by induction on the pile. -/
theorem makeRoom_ok (hc : Consistent before) (power patience : Nat) {source : List α}
    {runs : List (Run α)} (h : Stacked before source runs) :
    ∃ pile, makeRoom (answering before) power patience runs = .ok pile ∧
      Stacked before source pile.runs := by
  induction hn : runs.length using Nat.strongRecOn generalizing patience source runs with
  | ind n ih =>
    cases h with
    | nil => exact ⟨⟨[], patience⟩, by rw [makeRoom], .nil⟩
    | cons second hrest hsecond =>
      cases hrest with
      | nil => exact ⟨_, by rw [makeRoom], .cons { second with power := power } .nil hsecond⟩
      | cons first hrest hfirst =>
        rw [makeRoom]
        split
        · obtain ⟨patience', hmerged⟩ := gives_mergeRuns hc patience hfirst.ordered hsecond.ordered
          have hstacked := Stacked.cons ⟨first.start, _, 0⟩ hrest (hfirst.merge hc hsecond)
          rw [← List.append_assoc] at hstacked
          obtain ⟨pile, hpile, hall⟩ := ih _ (by rw [← hn]; simp) patience' hstacked rfl
          exact ⟨pile, bind_eq_ok.mpr ⟨_, hmerged, hpile⟩, hall⟩
        · exact ⟨_, rfl, .cons _ (.cons _ hrest hfirst) hsecond⟩

/-- An arrangement goes on a pile behind what is there. -/
theorem push_ok (hc : Consistent before) (whole start : Nat) {pile : Pile α}
    {source part members : List α} (h : Stacked before source pile.runs)
    (hmembers : Arranged before part members) :
    ∃ pile', pile.push (answering before) whole start members = .ok pile' ∧
      Stacked before (source ++ part) pile'.runs := by
  unfold Pile.push
  cases hruns : pile.runs with
  | nil =>
    rw [hruns] at h
    exact ⟨_, rfl, .cons _ (hruns ▸ h) hmembers⟩
  | cons run rest =>
    rw [hruns] at h
    obtain ⟨room, hroom, hall⟩ :=
      makeRoom_ok hc (borderPower whole run members.length) pile.patience h
    exact ⟨_, bind_eq_ok.mpr ⟨room, hroom, rfl⟩, .cons _ hall hmembers⟩

/-- All members go on a pile run by run, by induction on how many there are. -/
theorem pileUp_ok (hc : Consistent before) (whole minimum start : Nat) {pile : Pile α}
    {source : List α} (members : List α) (h : Stacked before source pile.runs) :
    ∃ pile', pileUp (answering before) whole minimum pile start members = .ok pile' ∧
      Stacked before (source ++ members) pile'.runs := by
  induction hn : members.length using Nat.strongRecOn generalizing pile start source members with
  | ind n ih =>
    cases members with
    | nil => exact ⟨pile, by rw [pileUp], by simpa using h⟩
    | cons x rest =>
      obtain ⟨run, following, hrun, harranged⟩ := firstRun_ok hc minimum x rest
      obtain ⟨pushed, hpushed, hstacked⟩ := push_ok hc whole start h harranged
      have hshorter : (rest.drop following).length < n := by
        rw [← hn, List.length_drop, List.length_cons]
        omega
      obtain ⟨pile', hpile', hall⟩ := ih _ hshorter (start + run.length) _ hstacked rfl
      have hmembers : source ++ x :: rest.take following ++ rest.drop following =
          source ++ x :: rest := by
        rw [List.append_assoc, List.cons_append, List.take_append_drop]
      refine ⟨pile', ?_, hmembers ▸ hall⟩
      rw [pileUp]
      exact bind_eq_ok.mpr ⟨_, hrun, bind_eq_ok.mpr ⟨pushed, hpushed, hpile'⟩⟩

/-- The runs of a pile merge into an arrangement of all its members, by induction on the pile. -/
theorem collapse_ok (hc : Consistent before) (patience : Nat) {source : List α}
    {runs : List (Run α)} (h : Stacked before source runs) :
    ∃ out, collapse (answering before) patience runs = .ok out ∧ Arranged before source out := by
  induction hn : runs.length using Nat.strongRecOn generalizing patience source runs with
  | ind n ih =>
    cases h with
    | nil => exact ⟨[], by rw [collapse], .refl .nil⟩
    | cons third hrest hthird =>
      cases hrest with
      | nil => exact ⟨third.members, by rw [collapse], by simpa using hthird⟩
      | cons second hrest hsecond =>
        obtain ⟨patience', hmerged⟩ := gives_mergeRuns hc patience hsecond.ordered hthird.ordered
        have hboth := hsecond.merge hc hthird
        cases hrest with
        | nil =>
          refine ⟨_, ?_, by simpa using hboth⟩
          rw [collapse]
          exact bind_eq_ok.mpr ⟨_, hmerged, rfl⟩
        | cons first hrest hfirst =>
          rw [collapse]
          split
          · obtain ⟨patience', hmerged⟩ :=
              gives_mergeRuns hc patience hfirst.ordered hsecond.ordered
            have hstacked := Stacked.cons ⟨first.start, _, 0⟩ hrest (hfirst.merge hc hsecond)
            rw [← List.append_assoc] at hstacked
            obtain ⟨out, hout, hall⟩ :=
              ih _ (by rw [← hn]; simp) patience' (.cons third hstacked hthird) rfl
            exact ⟨out, bind_eq_ok.mpr ⟨_, hmerged, hout⟩, hall⟩
          · have hstacked := Stacked.cons ⟨second.start, _, 0⟩ (.cons first hrest hfirst) hboth
            rw [← List.append_assoc] at hstacked
            obtain ⟨out, hout, hall⟩ := ih _ (by rw [← hn]; simp) patience' hstacked rfl
            exact ⟨out, bind_eq_ok.mpr ⟨_, hmerged, hout⟩, hall⟩

end Runs

/-- Members are ordered into their stable arrangement. -/
theorem sortMembers_ok (hc : Consistent before) (members : List α) :
    ∃ out, sortMembers (answering before) members = .ok out ∧ Arranged before members out := by
  unfold sortMembers
  dsimp only
  split
  · next hfew =>
    refine ⟨members, rfl, .refl ?_⟩
    match members, hfew with
    | [], _ => exact .nil
    | [x], _ => exact List.pairwise_singleton _ x
  · have hempty : Stacked before [] (⟨[], leapLength⟩ : Pile α).runs := .nil
    obtain ⟨pile, hpile, hstacked⟩ :=
      pileUp_ok hc members.length (minimumRun members.length) 0 members hempty
    obtain ⟨out, hout, harranged⟩ := collapse_ok hc pile.patience hstacked
    exact ⟨out, bind_eq_ok.mpr ⟨pile, hpile, hout⟩, harranged⟩

end ResourceAtlas.Sorting
