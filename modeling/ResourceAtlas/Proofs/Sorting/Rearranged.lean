import Mathlib.Data.List.Perm.Basic
import ResourceAtlas.Proofs.Outcome
import ResourceAtlas.Proofs.Sorting.Stepwise
import ResourceAtlas.Sorting.Runs

/-!
# Ordering rearranges

Whatever answers the comparison gives, members that are ordered are the members that came, each as
often as it came.
-/

namespace ResourceAtlas.Sorting

variable {α : Type} {precedes : α → α → Outcome Bool}

open Classical in
/-- Ending a merge from the front keeps all members. -/
theorem closeFront_perm (patience : Nat) (done left right : List α) :
    (closeFront patience done left right).members.Perm (done ++ left ++ right) := by
  rw [List.perm_iff_count]
  intro z
  unfold closeFront
  split
  · simp only [List.count_append, List.count_reverse]
    omega
  · simp only [List.count_append, List.count_reverse]

open Classical in
/-- Ending a merge from the back keeps all members. -/
theorem closeBack_perm (patience : Nat) (done left right : List α) :
    (closeBack patience done left right).members.Perm (done ++ left ++ right) := by
  rw [List.perm_iff_count]
  intro z
  unfold closeBack
  split
  · simp only [List.count_append, List.count_reverse, List.count_cons, List.count_nil]
    omega
  · simp only [List.count_append, List.count_reverse]
    omega

/-- What a merge of members that are done and two runs answers, if it answers. -/
def Keeps (result : Outcome (Merged α)) (done left right : List α) : Prop :=
  ∀ merged, result = .ok merged → merged.members.Perm (done ++ left ++ right)

/-- A merge from the front that ends keeps all members. -/
theorem keeps_closeFront (patience : Nat) (done left right : List α) :
    Keeps (.ok (closeFront patience done left right)) done left right := by
  intro merged h
  obtain rfl := Except.ok.inj h
  exact closeFront_perm patience done left right

/-- A merge from the back that ends keeps all members. -/
theorem keeps_closeBack (patience : Nat) (done left right : List α) :
    Keeps (.ok (closeBack patience done left right)) done left right := by
  intro merged h
  obtain rfl := Except.ok.inj h
  exact closeBack_perm patience done left right

/-- A merge that goes on with the same members keeps all members. -/
theorem Keeps.of_perm {result : Outcome (Merged α)} {done left right done' left' right' : List α}
    (h : Keeps result done' left' right')
    (hperm : (done' ++ left' ++ right').Perm (done ++ left ++ right)) :
    Keeps result done left right :=
  fun merged hr => (h merged hr).trans hperm

/-- A merge after a step keeps all members if it does whatever the step answers. -/
theorem keeps_bind {β : Type} {step : Outcome β} {next : β → Outcome (Merged α)}
    {done left right : List α} (h : ∀ b, Keeps (next b) done left right) :
    Keeps (step >>= next) done left right := by
  intro merged hr
  obtain ⟨b, -, hb⟩ := bind_eq_ok.mp hr
  exact h b merged hb

/-- A merge that goes on in one of two ways keeps all members if it does either way. -/
theorem keeps_ite {c : Prop} [Decidable c] {this that : Outcome (Merged α)}
    {done left right : List α} (hthis : Keeps this done left right)
    (hthat : Keeps that done left right) : Keeps (if c then this else that) done left right := by
  split
  · exact hthis
  · exact hthat

section Taken

variable {result : Outcome (Merged α)} {done left right : List α}

/-- A merge that has taken some members off the first run and keeps all keeps all from there back. -/
theorem Keeps.takeLeft (taken : List α) (h : Keeps result (taken.reverse ++ done) left right) :
    Keeps result done (taken ++ left) right := by
  refine h.of_perm (List.Perm.append_right right ?_)
  calc (taken.reverse ++ done ++ left).Perm (taken ++ done ++ left) :=
        ((List.reverse_perm taken).append_right done).append_right left
    _ |>.Perm (done ++ taken ++ left) := List.perm_append_comm.append_right left
    _ = done ++ (taken ++ left) := List.append_assoc done taken left

/-- A merge that has taken some members off the second run and keeps all keeps all from there back. -/
theorem Keeps.takeRight (taken : List α) (h : Keeps result (taken.reverse ++ done) left right) :
    Keeps result done left (taken ++ right) := by
  refine h.of_perm ?_
  calc (taken.reverse ++ done ++ left ++ right).Perm (taken ++ (done ++ left) ++ right) := by
        rw [List.append_assoc taken.reverse]
        exact ((List.reverse_perm taken).append_right (done ++ left)).append_right right
    _ |>.Perm (done ++ left ++ taken ++ right) := List.perm_append_comm.append_right right
    _ = done ++ left ++ (taken ++ right) := List.append_assoc (done ++ left) taken right

end Taken

/-- Every step of a merge from the front keeps all members. -/
theorem keeps_front :
    FrontSteps precedes fun done left right result => Keeps result done left right where
  close _ patience done := keeps_closeFront patience done _ _
  compare := by
    intro done left right x y next hright hleft
    refine keeps_bind fun b => ?_
    cases b with
    | true => exact hright.takeRight [y]
    | false => exact hleft.takeLeft [x]
  leapLeft := by
    intro done left right y next hnext
    refine keeps_bind fun k => ?_
    have htaken : Keeps (next k) ((left.take k).reverse ++ done) (left.drop k) (y :: right) :=
      (hnext k).takeRight [y]
    have hleapt := htaken.takeLeft (left.take k)
    rwa [List.take_append_drop] at hleapt
  leapRight := by
    intro done left right x next hnext
    refine keeps_bind fun m => ?_
    have htaken : Keeps (next m) ((right.take m).reverse ++ done) (x :: left) (right.drop m) :=
      (hnext m).takeLeft [x]
    have hleapt := htaken.takeRight (right.take m)
    rwa [List.take_append_drop] at hleapt

/-- Every step of a merge from the back keeps all members. -/
theorem keeps_back :
    BackSteps precedes fun done left right result => Keeps result done left right where
  close _ patience done := keeps_closeBack patience done _ _
  compare := by
    intro done left right x y next hleft hright
    refine keeps_bind fun b => ?_
    cases b with
    | true => exact hleft.takeLeft [x]
    | false => exact hright.takeRight [y]
  leapLeft := by
    intro done left right x y next hnext
    refine keeps_bind fun place => ?_
    have htaken : Keeps (next place) (((x :: left).take (left.length + 1 - place)).reverse ++ done)
        ((x :: left).drop (left.length + 1 - place)) (y :: right) := (hnext place).takeRight [y]
    have hleapt := htaken.takeLeft ((x :: left).take (left.length + 1 - place))
    rwa [List.take_append_drop] at hleapt
  leapRight := by
    intro done left right x y next hnext
    refine keeps_bind fun place => ?_
    have htaken : Keeps (next place) (((y :: right).take (right.length + 1 - place)).reverse ++ done)
        (x :: left) ((y :: right).drop (right.length + 1 - place)) := (hnext place).takeLeft [x]
    have hleapt := htaken.takeRight ((y :: right).take (right.length + 1 - place))
    rwa [List.take_append_drop] at hleapt

/-- Merging two runs whose ends are out of order keeps all members. -/
theorem keeps_mergeApart (patience : Nat) (left right : List α) :
    Keeps (mergeApart precedes patience left right) [] left right := by
  unfold mergeApart
  refine keeps_ite ?_ ?_
  · refine (keeps_front.all.1 _ _ _ _ _ _).of_perm ?_
    calc (right.take 1 ++ left ++ right.drop 1).Perm
          (left ++ right.take 1 ++ right.drop 1) := List.perm_append_comm.append_right _
      _ = [] ++ left ++ right := by rw [List.append_assoc, List.take_append_drop, List.nil_append]
  · refine (keeps_back.all.1 _ _ _ _ _ _).of_perm ?_
    rw [List.take_append_drop, List.nil_append]
    exact (List.reverse_perm left).append (List.reverse_perm right)

/-- Merging two runs keeps all members. -/
theorem mergeRuns_perm {patience : Nat} {left right : List α} {merged : Merged α}
    (h : mergeRuns precedes patience left right = .ok merged) :
    merged.members.Perm (left ++ right) := by
  unfold mergeRuns at h
  split at h
  · next hnil =>
    obtain rfl := List.head?_eq_none_iff.mp hnil
    obtain rfl := Except.ok.inj h
    rw [List.append_nil]
  · obtain ⟨k, -, h⟩ := bind_eq_ok.mp h
    split at h
    · obtain rfl := Except.ok.inj h
      rfl
    · obtain ⟨m, -, h⟩ := bind_eq_ok.mp h
      split at h
      · obtain rfl := Except.ok.inj h
        rfl
      · obtain ⟨inner, hinner, h⟩ := bind_eq_ok.mp h
        obtain rfl := Except.ok.inj h
        have hperm := keeps_mergeApart patience _ _ inner hinner
        rw [List.nil_append] at hperm
        calc (left.take k ++ inner.members ++ right.drop m).Perm
              (left.take k ++ (left.drop k ++ right.take m) ++ right.drop m) :=
              (hperm.append_left _).append_right _
          _ = left ++ right := by
            rw [← List.append_assoc, List.take_append_drop, List.append_assoc,
              List.take_append_drop]

/-- Inserting members one by one keeps all members. -/
theorem insertEach_perm {ordered more run : List α}
    (h : insertEach precedes ordered more = .ok run) : run.Perm (ordered ++ more) := by
  induction more generalizing ordered with
  | nil =>
    obtain rfl := Except.ok.inj h
    rw [List.append_nil]
  | cons x rest ih =>
    obtain ⟨place, -, h⟩ := bind_eq_ok.mp h
    calc run.Perm (ordered.take place ++ x :: ordered.drop place ++ rest) := ih h
      _ |>.Perm (x :: ordered ++ rest) := by
        refine List.Perm.append_right _ ?_
        have hmiddle : (ordered.take place ++ x :: ordered.drop place).Perm
            (x :: (ordered.take place ++ ordered.drop place)) := List.perm_middle
        rwa [List.take_append_drop] at hmiddle
      _ |>.Perm (ordered ++ x :: rest) := List.perm_middle.symm

/-- The first run holds the first members. -/
theorem firstRun_perm {minimum : Nat} {x : α} {rest run : List α} {following : Nat}
    (h : firstRun precedes minimum x rest = .ok (run, following)) :
    run.Perm (x :: rest.take following) := by
  have hgo : ∀ down : Bool, (do
      let count ← runLength precedes down x rest
      let natural := x :: rest.take count
      let ordered := if down then natural.reverse else natural
      let more := (rest.drop count).take (minimum - (count + 1))
      let run ← insertEach precedes ordered more
      .ok (run, max count (minimum - 1))) = .ok (run, following) →
        run.Perm (x :: rest.take following) := by
    intro down h
    obtain ⟨count, -, h⟩ := bind_eq_ok.mp h
    obtain ⟨filled, hfilled, h⟩ := bind_eq_ok.mp h
    obtain ⟨rfl, rfl⟩ := Prod.mk.inj (Except.ok.inj h)
    have hnatural : (if down then (x :: rest.take count).reverse else x :: rest.take count).Perm
        (x :: rest.take count) := by
      split
      · exact List.reverse_perm _
      · rfl
    calc filled.Perm _ := insertEach_perm hfilled
      _ |>.Perm (x :: rest.take count ++ (rest.drop count).take (minimum - (count + 1))) :=
        hnatural.append_right _
      _ = x :: rest.take (max count (minimum - 1)) := by
        rw [List.cons_append, ← List.take_add,
          show count + (minimum - (count + 1)) = max count (minimum - 1) by omega]
  unfold firstRun at h
  dsimp only at h
  split at h
  · obtain ⟨down, -, h⟩ := bind_eq_ok.mp h
    exact hgo down h
  · obtain ⟨down, -, h⟩ := bind_eq_ok.mp h
    exact hgo down h

/-- The members of runs that wait, those of the first run first. -/
def waiting (runs : List (Run α)) : List α :=
  (runs.reverse.map Run.members).flatten

/-- The members of runs with one more on top. -/
theorem waiting_cons (run : Run α) (rest : List (Run α)) :
    waiting (run :: rest) = waiting rest ++ run.members := by
  unfold waiting
  rw [List.reverse_cons, List.map_append, List.flatten_append, List.map_singleton,
    List.flatten_singleton]

/-- Merging runs on top of a pile keeps all members, by induction on the pile. -/
theorem makeRoom_perm {power patience : Nat} {runs : List (Run α)} {pile : Pile α}
    (h : makeRoom precedes power patience runs = .ok pile) :
    (waiting pile.runs).Perm (waiting runs) := by
  induction hn : runs.length using Nat.strongRecOn generalizing patience runs with
  | ind n ih =>
    match runs with
    | second :: first :: rest =>
      rw [makeRoom] at h
      split at h
      · obtain ⟨merged, hmerged, h⟩ := bind_eq_ok.mp h
        have hrest := ih _ (by rw [← hn]; simp) h rfl
        refine hrest.trans ?_
        rw [waiting_cons, waiting_cons, waiting_cons, List.append_assoc]
        exact (mergeRuns_perm hmerged).append_left _
      · obtain rfl := Except.ok.inj h
        rw [waiting_cons, waiting_cons, waiting_cons, waiting_cons]
    | [run] =>
      rw [makeRoom] at h
      obtain rfl := Except.ok.inj h
      rw [waiting_cons, waiting_cons]
    | [] =>
      rw [makeRoom] at h
      obtain rfl := Except.ok.inj h
      rfl

/-- Putting a run on a pile adds its members. -/
theorem push_perm {whole start : Nat} {pile pile' : Pile α} {members : List α}
    (h : pile.push precedes whole start members = .ok pile') :
    (waiting pile'.runs).Perm (waiting pile.runs ++ members) := by
  unfold Pile.push at h
  dsimp only at h
  split at h
  · obtain ⟨room, hroom, h⟩ := bind_eq_ok.mp h
    obtain rfl := Except.ok.inj hroom
    obtain rfl := Except.ok.inj h
    rw [waiting_cons]
  · obtain ⟨room, hroom, h⟩ := bind_eq_ok.mp h
    obtain rfl := Except.ok.inj h
    rw [waiting_cons]
    exact (makeRoom_perm hroom).append_right _

/-- Putting all runs of members on a pile adds the members, by induction on how many there are. -/
theorem pileUp_perm {whole minimum start : Nat} {pile pile' : Pile α} {members : List α}
    (h : pileUp precedes whole minimum pile start members = .ok pile') :
    (waiting pile'.runs).Perm (waiting pile.runs ++ members) := by
  induction hn : members.length using Nat.strongRecOn generalizing pile start members with
  | ind n ih =>
    match members with
    | [] =>
      rw [pileUp] at h
      obtain rfl := Except.ok.inj h
      rw [List.append_nil]
    | x :: rest =>
      rw [pileUp] at h
      obtain ⟨⟨run, following⟩, hrun, h⟩ := bind_eq_ok.mp h
      obtain ⟨pushed, hpushed, h⟩ := bind_eq_ok.mp h
      have hshorter : (rest.drop following).length < n := by
        rw [← hn, List.length_drop, List.length_cons]
        omega
      have hrest := ih _ hshorter h rfl
      calc (waiting pile'.runs).Perm (waiting pushed.runs ++ rest.drop following) := hrest
        _ |>.Perm (waiting pile.runs ++ run ++ rest.drop following) :=
          (push_perm hpushed).append_right _
        _ |>.Perm (waiting pile.runs ++ x :: rest.take following ++ rest.drop following) :=
          ((firstRun_perm hrun).append_left _).append_right _
        _ = waiting pile.runs ++ x :: rest := by
          rw [List.append_assoc, List.cons_append, List.take_append_drop]

/-- Merging all runs of a pile keeps all members, by induction on the pile. -/
theorem collapse_perm {patience : Nat} {runs : List (Run α)} {members : List α}
    (h : collapse precedes patience runs = .ok members) : members.Perm (waiting runs) := by
  induction hn : runs.length using Nat.strongRecOn generalizing patience runs with
  | ind n ih =>
    match runs with
    | [] =>
      rw [collapse] at h
      obtain rfl := Except.ok.inj h
      rfl
    | [run] =>
      rw [collapse] at h
      obtain rfl := Except.ok.inj h
      rw [waiting_cons]
      rfl
    | [third, second] =>
      rw [collapse] at h
      obtain ⟨merged, hmerged, h⟩ := bind_eq_ok.mp h
      obtain rfl := Except.ok.inj h
      rw [waiting_cons, waiting_cons]
      exact mergeRuns_perm hmerged
    | third :: second :: first :: rest =>
      have hall : waiting (third :: second :: first :: rest) =
          waiting rest ++ (first.members ++ second.members) ++ third.members := by
        rw [waiting_cons, waiting_cons, waiting_cons, List.append_assoc (waiting rest)]
      rw [collapse] at h
      split at h
      · obtain ⟨merged, hmerged, h⟩ := bind_eq_ok.mp h
        refine (ih _ (by rw [← hn]; simp) h rfl).trans ?_
        rw [hall, waiting_cons, waiting_cons]
        exact ((mergeRuns_perm hmerged).append_left _).append_right _
      · obtain ⟨merged, hmerged, h⟩ := bind_eq_ok.mp h
        refine (ih _ (by rw [← hn]; simp) h rfl).trans ?_
        rw [hall, waiting_cons, waiting_cons, ← List.append_assoc, List.append_assoc _ second.members]
        exact (mergeRuns_perm hmerged).append_left _

/-- Members that are ordered are the members that came. -/
theorem sortMembers_perm {members ordered : List α}
    (h : sortMembers precedes members = .ok ordered) : ordered.Perm members := by
  unfold sortMembers at h
  dsimp only at h
  split at h
  · obtain rfl := Except.ok.inj h
    rfl
  · obtain ⟨pile, hpile, h⟩ := bind_eq_ok.mp h
    have hall := pileUp_perm hpile
    rw [show waiting ([] : List (Run α)) = [] from rfl, List.nil_append] at hall
    exact (collapse_perm h).trans hall

end ResourceAtlas.Sorting
