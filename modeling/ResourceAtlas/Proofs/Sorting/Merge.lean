import Mathlib.Data.List.Basic
import ResourceAtlas.Proofs.Sorting.Rearranged
import ResourceAtlas.Proofs.Sorting.Search

/-!
# Merging ordered runs

With a comparison that always answers, and consistently, two ordered runs merge into one, and of two
members that do not precede each other the one of the first run comes first. Which of the ways to
merge is taken, and how patient it is, makes no difference.
-/

namespace ResourceAtlas.Sorting

variable {α : Type} {before : α → α → Bool}

/-- A comparison is consistent: of two members at most one precedes the other, and a member that
precedes none of two neighbours in an order does not precede the first of them for the second one's
sake. -/
structure Consistent (before : α → α → Bool) : Prop where
  /-- Of two members at most one precedes the other. -/
  asymm : ∀ {a b}, before a b = true → before b a = false
  /-- What need not stand ahead of another member need not stand ahead of those before that. -/
  trans : ∀ {a b c}, before b a = false → before c b = false → before c a = false

namespace Consistent

/-- No member precedes itself. -/
theorem irrefl (hc : Consistent before) (a : α) : before a a = false := by
  cases h : before a a with
  | false => rfl
  | true => exact absurd (hc.asymm h) (by simp [h])

/-- What precedes a member precedes all that may follow that. -/
theorem lt_of_lt_of_le (hc : Consistent before) {a b c : α} (hab : before a b = true)
    (hbc : before c b = false) : before a c = true := by
  cases hac : before a c with
  | true => rfl
  | false =>
    have hba := hc.trans hbc hac
    rw [hab] at hba
    contradiction

/-- What follows a member follows all that need not follow that. -/
theorem lt_of_le_of_lt (hc : Consistent before) {a b c : α} (hab : before b a = false)
    (hbc : before b c = true) : before a c = true := by
  cases hac : before a c with
  | true => rfl
  | false =>
    have hbc' := hc.trans hac hab
    rw [hbc] at hbc'
    contradiction

end Consistent

/-- A comparison as the order takes it, one that always answers. -/
def answering (before : α → α → Bool) : α → α → Outcome Bool :=
  fun a b => .ok (before a b)

/-- Steps after a comparison that always answers go on from its answer. -/
theorem answering_bind {β : Type} (a b : α) (next : Bool → Outcome β) :
    (answering before a b >>= next) = next (before a b) :=
  rfl

/-- No member of a run precedes one ahead of it. -/
def Ordered (before : α → α → Bool) (run : List α) : Prop :=
  run.Pairwise fun a b => before b a = false

namespace Ordered

/-- Some of the members of an ordered run are ordered. -/
theorem sublist {run run' : List α} (h : Ordered before run) (hsub : run'.Sublist run) :
    Ordered before run' :=
  List.Pairwise.sublist hsub h

/-- The last member of an ordered run precedes none of its members. -/
theorem last (hc : Consistent before) {run : List α} {y : α}
    (h : Ordered before (run ++ [y])) : ∀ b ∈ run ++ [y], before y b = false := by
  intro b hb
  obtain ⟨-, -, hcross⟩ := List.pairwise_append.mp h
  rcases List.mem_append.mp hb with hb | hb
  · exact hcross b hb y List.mem_cons_self
  · rw [List.mem_singleton.mp hb]
    exact hc.irrefl y

end Ordered

/-- The merge of two runs in which a member of the second one goes ahead of those that it precedes
only. -/
def stableMerge (before : α → α → Bool) (left right : List α) : List α :=
  left.merge right fun a b => !before b a

section StableMerge

@[simp]
theorem stableMerge_nil_left (right : List α) : stableMerge before [] right = right := by
  simp [stableMerge]

@[simp]
theorem stableMerge_nil_right (left : List α) : stableMerge before left [] = left := by
  simp [stableMerge]

/-- The first members of two runs decide which of them comes first. -/
theorem stableMerge_cons_cons (x y : α) (left right : List α) :
    stableMerge before (x :: left) (y :: right) =
      if before y x then y :: stableMerge before (x :: left) right
      else x :: stableMerge before left (y :: right) := by
  unfold stableMerge
  rw [List.cons_merge_cons]
  cases before y x <;> simp

/-- Members of the first run that the second one does not go ahead of come first. -/
theorem stableMerge_append_left {taken right : List α} (left : List α)
    (h : ∀ a ∈ taken, ∀ y ∈ right.head?, before y a = false) :
    stableMerge before (taken ++ left) right = taken ++ stableMerge before left right := by
  cases right with
  | nil => simp
  | cons y right =>
    induction taken with
    | nil => rfl
    | cons a taken ih =>
      have ha := h a List.mem_cons_self y rfl
      have hrest := ih fun b hb => h b (List.mem_cons_of_mem a hb)
      rw [List.cons_append, stableMerge_cons_cons, ha, hrest]
      rfl

/-- Members of the second run that go ahead of the first one come first. -/
theorem stableMerge_append_right {taken left : List α} (right : List α)
    (h : ∀ b ∈ taken, ∀ x ∈ left.head?, before b x = true) :
    stableMerge before left (taken ++ right) = taken ++ stableMerge before left right := by
  cases left with
  | nil => simp
  | cons x left =>
    induction taken with
    | nil => rfl
    | cons b taken ih =>
      have hb := h b List.mem_cons_self x rfl
      have hrest := ih fun c hc => h c (List.mem_cons_of_mem b hc)
      rw [List.cons_append, stableMerge_cons_cons, hb, hrest]
      rfl

/-- One member of the second run that goes ahead of the first one comes first. -/
theorem stableMerge_cons_right {y : α} {left right : List α}
    (h : ∀ x ∈ left.head?, before y x = true) :
    stableMerge before left (y :: right) = y :: stableMerge before left right := by
  have hone : ∀ b ∈ [y], ∀ x ∈ left.head?, before b x = true := by simpa using h
  simpa using stableMerge_append_right right hone

/-- One member of the first run that the second one does not go ahead of comes first. -/
theorem stableMerge_cons_left {x : α} {left right : List α}
    (h : ∀ y ∈ right.head?, before y x = false) :
    stableMerge before (x :: left) right = x :: stableMerge before left right := by
  have hone : ∀ a ∈ [x], ∀ y ∈ right.head?, before y a = false := by simpa using h
  simpa using stableMerge_append_left left hone

/-- Members of the first run that the whole second one goes ahead of come last. -/
theorem stableMerge_concat_left {left rest right : List α}
    (h : ∀ x ∈ rest, ∀ b ∈ right, before b x = true) :
    stableMerge before (left ++ rest) right = stableMerge before left right ++ rest := by
  induction left generalizing right with
  | nil =>
    have hhead : ∀ b ∈ right, ∀ x ∈ rest.head?, before b x = true :=
      fun b hb x hx => h x (List.mem_of_mem_head? hx) b hb
    simpa using stableMerge_append_right [] hhead
  | cons a left ihleft =>
    induction right with
    | nil => simp
    | cons b right ihright =>
      have hrest := ihright fun x hx c hc => h x hx c (List.mem_cons_of_mem b hc)
      rw [List.cons_append] at hrest
      rw [List.cons_append, stableMerge_cons_cons, stableMerge_cons_cons, ihleft h, hrest]
      split <;> rfl

/-- Members of the second run that go ahead of no member of the first one come last. -/
theorem stableMerge_concat_right {left right rest : List α}
    (h : ∀ a ∈ left, ∀ y ∈ rest, before y a = false) :
    stableMerge before left (right ++ rest) = stableMerge before left right ++ rest := by
  induction right generalizing left with
  | nil =>
    have hhead : ∀ a ∈ left, ∀ y ∈ rest.head?, before y a = false :=
      fun a ha y hy => h a ha y (List.mem_of_mem_head? hy)
    simpa using stableMerge_append_left [] hhead
  | cons b right ihright =>
    induction left with
    | nil => simp
    | cons a left ihleft =>
      have hrest := ihleft fun c hc y hy => h c (List.mem_cons_of_mem a hc) y hy
      rw [List.cons_append] at hrest
      rw [List.cons_append, stableMerge_cons_cons, stableMerge_cons_cons, ihright h, hrest]
      split <;> rfl

end StableMerge

section Place

/-- A test that holds on a run no later than on what stands behind it holds on the first members
and on no others. -/
theorem exists_boundary {p : α → Bool} {run : List α}
    (h : run.Pairwise fun a b => p b = true → p a = true) :
    ∃ k, k ≤ run.length ∧ (∀ y ∈ run.take k, p y = true) ∧ ∀ y ∈ run.drop k, p y = false := by
  induction run with
  | nil => exact ⟨0, by simp⟩
  | cons x run ih =>
    obtain ⟨hx, hrun⟩ := List.pairwise_cons.mp h
    cases hpx : p x with
    | false =>
      refine ⟨0, by simp, by simp, fun y hy => ?_⟩
      rw [List.drop_zero, List.mem_cons] at hy
      obtain rfl | hy := hy
      · exact hpx
      · have hpy := hx y hy
        cases hp : p y with
        | false => rfl
        | true => exact absurd (hpy hp) (by simp [hpx])
    | true =>
      obtain ⟨k, hk, hbelow, habove⟩ := ih hrun
      refine ⟨k + 1, by simpa using hk, ?_, by simpa using habove⟩
      simpa [hpx] using hbelow

/-- The boundary of such a test is what the test at the indices of the run has. -/
theorem holdsBelow_of_boundary {p : α → Bool} {run : List α} {k : Nat} (hk : k ≤ run.length)
    (hbelow : ∀ y ∈ run.take k, p y = true) (habove : ∀ y ∈ run.drop k, p y = false) (most : Nat) :
    HoldsBelow (fun i => match run[i]? with
      | some y => .ok (p y)
      | none => .ok false) k most := by
  intro i _
  dsimp only
  split
  · next y hy =>
    by_cases hi : i < k
    · have hmem : y ∈ run.take k := List.mem_of_getElem? (by rw [List.getElem?_take_of_lt hi, hy])
      rw [hbelow y hmem, decide_eq_true hi]
    · have hmem : y ∈ run.drop k :=
        List.mem_of_getElem? (i := i - k) (by rw [List.getElem?_drop, Nat.add_sub_cancel' (by omega), hy])
      rw [habove y hmem, decide_eq_false hi]
  · next hnone =>
    have hlen := List.getElem?_eq_none_iff.mp hnone
    rw [decide_eq_false (by omega)]

/-- The members of an ordered run that a new member does not precede are its first ones, and a
search for the boundary of that finds them. -/
theorem exists_place_after (hc : Consistent before) {run : List α} (hrun : Ordered before run)
    (x : α) :
    ∃ k, k ≤ run.length ∧ (∀ most, HoldsBelow (fun i => match run[i]? with
        | some y => (answering before x y).map (!·)
        | none => .ok false) k most) ∧
      (∀ y ∈ run.take k, before x y = false) ∧ ∀ y ∈ run.drop k, before x y = true := by
  have hdown : run.Pairwise fun a b => (!before x b) = true → (!before x a) = true := by
    refine hrun.imp fun {a b} hab => ?_
    simpa using fun hxb => hc.trans hab hxb
  obtain ⟨k, hk, hbelow, habove⟩ := exists_boundary hdown
  have htest := holdsBelow_of_boundary hk hbelow habove
  exact ⟨k, hk, htest, by simpa using hbelow, by simpa using habove⟩

/-- The place of a new member that follows its equals: behind the members that it does not precede
and ahead of the others. -/
theorem placeAfter_ok (hc : Consistent before) {run : List α} (hrun : Ordered before run) (x : α)
    (hint : Nat) :
    ∃ k, placeAfter (answering before) x run hint = .ok k ∧
      (∀ y ∈ run.take k, before x y = false) ∧ ∀ y ∈ run.drop k, before x y = true := by
  obtain ⟨k, hk, htest, htake, hdrop⟩ := exists_place_after hc hrun x
  exact ⟨k, gallop_eq htest hk hint, htake, hdrop⟩

/-- The place of a new member that precedes its equals: behind the members that precede it and
ahead of the others. -/
theorem placeBefore_ok (hc : Consistent before) {run : List α} (hrun : Ordered before run) (x : α)
    (hint : Nat) :
    ∃ k, placeBefore (answering before) x run hint = .ok k ∧
      (∀ y ∈ run.take k, before y x = true) ∧ ∀ y ∈ run.drop k, before y x = false := by
  have hdown : run.Pairwise fun a b => before b x = true → before a x = true :=
    hrun.imp fun {a b} hab hbx => hc.lt_of_le_of_lt hab hbx
  obtain ⟨k, hk, hbelow, habove⟩ := exists_boundary hdown
  have htest := holdsBelow_of_boundary hk hbelow habove
  exact ⟨k, gallop_eq htest hk hint, hbelow, habove⟩

end Place

/-- A merge ends with given members. -/
def Gives (result : Outcome (Merged α)) (members : List α) : Prop :=
  ∃ patience, result = .ok ⟨members, patience⟩

/-- The last member of a run stands in a relation to all members of another one. -/
def LastStands (r : α → α → Prop) (run others : List α) : Prop :=
  ∀ x ∈ run.getLast?, ∀ b ∈ others, r x b

namespace LastStands

variable {r : α → α → Prop} {run others : List α}

/-- The last member stays when members are taken from the front. -/
theorem drop (h : LastStands r run others) (k : Nat) : LastStands r (run.drop k) others := by
  intro x hx
  rw [List.getLast?_drop] at hx
  split at hx
  · contradiction
  · exact h x hx

/-- The relation to some of the members stays. -/
theorem subset (h : LastStands r run others) {others' : List α} (hsub : others' ⊆ others) :
    LastStands r run others' :=
  fun x hx b hb => h x hx b (hsub hb)

end LastStands

section Front

/-- A leap over the first run: its members that the next one of the second run does not go ahead of
come first, and then that one. -/
theorem stableMerge_leapLeft {y : α} {left right : List α} {k : Nat}
    (htake : ∀ a ∈ left.take k, before y a = false) (hdrop : ∀ a ∈ left.drop k, before y a = true) :
    stableMerge before left (y :: right) =
      left.take k ++ y :: stableMerge before (left.drop k) right := by
  have hahead : ∀ a ∈ left.take k, ∀ z ∈ (y :: right).head?, before z a = false := by
    simpa using htake
  have htaken := stableMerge_append_left (left.drop k) hahead
  rw [List.take_append_drop] at htaken
  have hnext : ∀ a ∈ (left.drop k).head?, before y a = true :=
    fun a ha => hdrop a (List.mem_of_mem_head? ha)
  rw [htaken, stableMerge_cons_right hnext]

/-- A leap over the second run: its members that go ahead of the next one of the first run come
first, and then that one. -/
theorem stableMerge_leapRight {x : α} {left right : List α} {m : Nat}
    (htake : ∀ b ∈ right.take m, before b x = true)
    (hdrop : ∀ b ∈ right.drop m, before b x = false) :
    stableMerge before (x :: left) right =
      right.take m ++ x :: stableMerge before left (right.drop m) := by
  have hahead : ∀ b ∈ right.take m, ∀ z ∈ (x :: left).head?, before b z = true := by
    simpa using htake
  have htaken := stableMerge_append_right (right.drop m) hahead
  rw [List.take_append_drop] at htaken
  have hnext : ∀ b ∈ (right.drop m).head?, before b x = false :=
    fun b hb => hdrop b (List.mem_of_mem_head? hb)
  rw [htaken, stableMerge_cons_left hnext]

/-- A merge from the front ends when the second run is used up, or the first one has no more than
the greatest member left. -/
theorem closeFront_eq {left right : List α} (hfew : left.length ≤ 1 ∨ right = [])
    (hlast : LastStands (fun x b => before b x = true) left right) (patience : Nat)
    (done : List α) :
    closeFront patience done left right =
      ⟨done.reverse ++ stableMerge before left right, patience⟩ := by
  unfold closeFront
  split
  · next x =>
    have hall : ∀ b ∈ right, ∀ z ∈ [x].head?, before b z = true := by
      simpa using hlast x (by simp)
    have hmerge := stableMerge_append_right [] hall
    rw [List.append_nil, stableMerge_nil_right] at hmerge
    rw [hmerge, List.append_assoc]
  · next hone =>
    have hend : left = [] ∨ right = [] := by
      match left, hfew with
      | [], _ => exact .inl rfl
      | [x], _ => exact absurd rfl (hone x)
      | _ :: _ :: _, .inr hright => exact .inr hright
    obtain rfl | rfl := hend <;> simp

/-- Every step of a merge from the front of ordered runs goes on to their stable merge behind what is
merged already. The greatest member of the first run comes behind the whole second run throughout. -/
theorem gives_front (hc : Consistent before) :
    FrontSteps (answering before) fun done left right result =>
      Ordered before left → Ordered before right →
      LastStands (fun x b => before b x = true) left right →
      Gives result (done.reverse ++ stableMerge before left right) where
  close hfew patience done _ _ hlast := ⟨patience, by rw [closeFront_eq hfew hlast]⟩
  compare := by
    intro done left right x y next hnext hnext' hleft hright hlast
    rw [answering_bind, stableMerge_cons_cons]
    cases before y x with
    | true => simpa using hnext hleft (hright.sublist (by simp)) (hlast.subset (by simp))
    | false => simpa using hnext' (hleft.sublist (by simp)) hright (hlast.drop 1)
  leapLeft := by
    intro done left right y next hnext hleft hright hlast
    obtain ⟨k, hk, htake, hdrop⟩ := placeAfter_ok hc hleft y 0
    rw [hk, ok_bind, stableMerge_leapLeft htake hdrop]
    simpa using hnext k (hleft.sublist (List.drop_sublist k left)) (hright.sublist (by simp))
      ((hlast.drop k).subset (by simp))
  leapRight := by
    intro done left right x next hnext hleft hright hlast
    obtain ⟨m, hm, htake, hdrop⟩ := placeBefore_ok hc hright x 0
    rw [hm, ok_bind, stableMerge_leapRight htake hdrop]
    simpa using hnext m (hleft.sublist (by simp)) (hright.sublist (List.drop_sublist m right))
      ((hlast.drop 1).subset (List.drop_subset m right))

end Front

section Back

/-- A merge from the back ends when the first run is used up, or the second one has no more than
the least member left. -/
theorem closeBack_eq {left right : List α} (hfew : right.length ≤ 1 ∨ left = [])
    (hlast : LastStands (fun y a => before y a = true) right left) (patience : Nat)
    (done : List α) :
    closeBack patience done left right =
      ⟨stableMerge before left.reverse right.reverse ++ done, patience⟩ := by
  unfold closeBack
  split
  · next y =>
    have hall : ∀ a ∈ left.reverse.head?, before y a = true := by
      intro a ha
      exact hlast y (by simp) a (List.mem_reverse.mp (List.mem_of_mem_head? ha))
    rw [List.reverse_singleton, stableMerge_cons_right hall, stableMerge_nil_right]
  · next hone =>
    have hend : right = [] ∨ left = [] := by
      match right, hfew with
      | [], _ => exact .inl rfl
      | [y], _ => exact absurd rfl (hone y)
      | _ :: _ :: _, .inr hleft => exact .inr hleft
    obtain rfl | rfl := hend <;> simp

/-- A leap over the first run from its back: its members that the last one of the second run goes
ahead of come last, and before them that one. -/
theorem stableMerge_leapLeft_back (hc : Consistent before) {y : α} {ahead behind right : List α}
    (hright : Ordered before (right ++ [y])) (hahead : ∀ a ∈ ahead, before y a = false)
    (hbehind : ∀ a ∈ behind, before y a = true) :
    stableMerge before (ahead ++ behind) (right ++ [y]) =
      stableMerge before ahead right ++ y :: behind := by
  have hlast : ∀ x ∈ behind, ∀ b ∈ right ++ [y], before b x = true :=
    fun x hx b hb => hc.lt_of_le_of_lt (hright.last hc b hb) (hbehind x hx)
  have hnext : ∀ a ∈ ahead, ∀ z ∈ [y], before z a = false := by simpa using hahead
  rw [stableMerge_concat_left hlast, stableMerge_concat_right hnext, List.append_assoc]
  rfl

/-- A leap over the second run from its back: its members that do not go ahead of the last one of
the first run come last, and before them that one. -/
theorem stableMerge_leapRight_back (hc : Consistent before) {x : α} {left ahead behind : List α}
    (hleft : Ordered before (left ++ [x])) (hahead : ∀ b ∈ ahead, before b x = true)
    (hbehind : ∀ b ∈ behind, before b x = false) :
    stableMerge before (left ++ [x]) (ahead ++ behind) =
      stableMerge before left ahead ++ x :: behind := by
  have hlast : ∀ a ∈ left ++ [x], ∀ b ∈ behind, before b a = false :=
    fun a ha b hb => hc.trans (hleft.last hc a ha) (hbehind b hb)
  have hnext : ∀ z ∈ [x], ∀ b ∈ ahead, before b z = true := by simpa using hahead
  rw [stableMerge_concat_right hlast, stableMerge_concat_left hnext, List.append_assoc]
  rfl

/-- Every step of a merge from the back of ordered runs goes on to their stable merge ahead of what is
merged already. The least member of the second run comes ahead of the whole first run throughout. -/
theorem gives_back (hc : Consistent before) :
    BackSteps (answering before) fun done left right result =>
      Ordered before left.reverse → Ordered before right.reverse →
      LastStands (fun y a => before y a = true) right left →
      Gives result (stableMerge before left.reverse right.reverse ++ done) where
  close hfew patience done _ _ hlast := ⟨patience, by rw [closeBack_eq hfew hlast]⟩
  compare := by
    intro done left right x y next hnext hnext' hleft hright hlast
    rw [List.reverse_cons] at hleft hright
    rw [answering_bind, List.reverse_cons, List.reverse_cons]
    cases hyx : before y x with
    | true =>
      have hfar : ∀ z ∈ [x], ∀ b ∈ right.reverse ++ [y], before b z = true := by
        intro z hz b hb
        rw [List.mem_singleton.mp hz]
        exact hc.lt_of_le_of_lt (hright.last hc b hb) hyx
      rw [stableMerge_concat_left hfar]
      simpa using hnext (hleft.sublist (by simp)) (by simpa using hright) (hlast.subset (by simp))
    | false =>
      have hfar : ∀ a ∈ left.reverse ++ [x], ∀ z ∈ [y], before z a = false := by
        intro a ha z hz
        rw [List.mem_singleton.mp hz]
        exact hc.trans (hleft.last hc a ha) hyx
      rw [stableMerge_concat_right hfar]
      simpa using hnext' (by simpa using hleft) (hright.sublist (by simp)) (hlast.drop 1)
  leapLeft := by
    intro done left right x y next hnext hleft hright hlast
    obtain ⟨place, hplace, htake, hdrop⟩ := placeAfter_ok hc hleft y left.length
    obtain ⟨k, hk⟩ : ∃ k, left.length + 1 - place = k := ⟨_, rfl⟩
    have hrest := hnext place
    rw [hk] at hrest
    rw [List.take_reverse, List.length_cons, hk] at htake
    rw [List.drop_reverse, List.length_cons, hk] at hdrop
    rw [List.reverse_cons] at hright
    have hmembers := stableMerge_leapLeft_back hc hright htake hdrop
    rw [← List.reverse_append, List.take_append_drop, ← List.reverse_cons] at hmembers
    rw [hplace, ok_bind, hmembers]
    simpa using hrest (hleft.sublist (List.reverse_sublist.mpr (List.drop_sublist k _)))
      (hright.sublist (by simp)) ((hlast.drop 1).subset (List.drop_subset k _))
  leapRight := by
    intro done left right x y next hnext hleft hright hlast
    obtain ⟨place, hplace, htake, hdrop⟩ := placeBefore_ok hc hright x right.length
    obtain ⟨m, hm⟩ : ∃ m, right.length + 1 - place = m := ⟨_, rfl⟩
    have hrest := hnext place
    rw [hm] at hrest
    rw [List.take_reverse, List.length_cons, hm] at htake
    rw [List.drop_reverse, List.length_cons, hm] at hdrop
    rw [List.reverse_cons] at hleft
    have hmembers := stableMerge_leapRight_back hc hleft htake hdrop
    rw [← List.reverse_append, List.take_append_drop, ← List.reverse_cons] at hmembers
    rw [hplace, ok_bind, hmembers]
    simpa using hrest (hleft.sublist (by simp))
      (hright.sublist (List.reverse_sublist.mpr (List.drop_sublist m _)))
      ((hlast.drop m).subset (List.subset_cons_self x left))

end Back

/-- Two runs whose ends are out of order merge, from whichever side it is done. -/
theorem gives_mergeApart (hc : Consistent before) (patience : Nat) {left right : List α}
    (hleft : Ordered before left) (hright : Ordered before right)
    (hfirst : ∀ y ∈ right.head?, ∀ a ∈ left, before y a = true)
    (hlast : LastStands (fun x b => before b x = true) left right) :
    Gives (mergeApart (answering before) patience left right) (stableMerge before left right) := by
  unfold mergeApart
  split
  · have hmerge := (gives_front hc).all.1 patience 0 0 (right.take 1) left (right.drop 1) hleft
      (hright.sublist (List.drop_sublist 1 right)) (hlast.subset (List.drop_subset 1 right))
    cases right with
    | nil => simpa using hmerge
    | cons y right =>
      have hhead : ∀ a ∈ left.head?, before y a = true :=
        fun a ha => hfirst y rfl a (List.mem_of_mem_head? ha)
      rw [stableMerge_cons_right hhead]
      simpa using hmerge
  · next hlonger =>
    obtain hnil | ⟨init, x, rfl⟩ := List.eq_nil_or_concat' left
    · rw [hnil] at hlonger
      exact absurd (Nat.zero_le _) hlonger
    · have hx : ∀ z ∈ [x], ∀ b ∈ right, before b z = true := by
        intro z hz b hb
        rw [List.mem_singleton.mp hz]
        exact hlast x (by simp) b hb
      have hstands : LastStands (fun y a => before y a = true) right.reverse init.reverse := by
        intro y hy a ha
        rw [List.getLast?_reverse] at hy
        exact hfirst y hy a (by simpa using .inl (List.mem_reverse.mp ha))
      have hmerge := (gives_back hc).all.1 patience 0 0 [x] init.reverse right.reverse
        (by simpa using hleft.sublist (List.sublist_append_left init [x]))
        (by simpa using hright) hstands
      rw [stableMerge_concat_left hx]
      simpa using hmerge

/-- Two ordered runs merge. -/
theorem gives_mergeRuns (hc : Consistent before) (patience : Nat) {left right : List α}
    (hleft : Ordered before left) (hright : Ordered before right) :
    Gives (mergeRuns (answering before) patience left right) (stableMerge before left right) := by
  cases right with
  | nil => exact ⟨patience, by simp [mergeRuns]⟩
  | cons y right =>
    obtain ⟨k, hk, hktake, hkdrop⟩ := placeAfter_ok hc hleft y 0
    have hahead : ∀ a ∈ left.take k, ∀ z ∈ (y :: right).head?, before z a = false := by
      simpa using hktake
    have hdone := stableMerge_append_left (left.drop k) hahead
    rw [List.take_append_drop] at hdone
    unfold mergeRuns
    simp only [List.head?_cons, hk, bind, Except.bind]
    cases hx : (left.drop k).getLast? with
    | none =>
      rw [List.getLast?_eq_none_iff.mp hx, stableMerge_nil_left,
        List.take_of_length_le (List.drop_eq_nil_iff.mp (List.getLast?_eq_none_iff.mp hx))] at hdone
      exact ⟨patience, by rw [hdone]⟩
    | some x =>
      have hbehind : Ordered before (left.drop k) := hleft.sublist (List.drop_sublist k left)
      have hle : ∀ a ∈ left.drop k, before x a = false := by
        obtain ⟨init, hinit⟩ := List.getLast?_eq_some_iff.mp hx
        rw [hinit] at hbehind ⊢
        exact hbehind.last hc
      obtain ⟨m, hm, hmtake, hmdrop⟩ := placeBefore_ok hc hright x ((y :: right).length - 1)
      -- The first member of the second run precedes the last one of the first run.
      have hm0 : m ≠ 0 := by
        rintro rfl
        have hyx := hmdrop y (by simp)
        rw [hkdrop x (List.mem_of_getLast? hx)] at hyx
        contradiction
      have hfirst : ∀ z ∈ ((y :: right).take m).head?, ∀ a ∈ left.drop k, before z a = true := by
        intro z hz a ha
        rw [List.head?_take, if_neg hm0, List.head?_cons] at hz
        exact Option.some.inj hz ▸ hkdrop a ha
      have hlast : LastStands (fun x b => before b x = true) (left.drop k) ((y :: right).take m) := by
        intro z hz b hb
        rw [hx] at hz
        exact Option.some.inj hz ▸ hmtake b hb
      obtain ⟨patience', hmerged⟩ := gives_mergeApart hc patience hbehind
        (hright.sublist (List.take_sublist m _)) hfirst hlast
      have hover : ∀ a ∈ left.drop k, ∀ b ∈ (y :: right).drop m, before b a = false :=
        fun a ha b hb => hc.trans (hle a ha) (hmdrop b hb)
      have hrest : stableMerge before (left.drop k) (y :: right) =
          stableMerge before (left.drop k) ((y :: right).take m) ++ (y :: right).drop m := by
        rw [← stableMerge_concat_right hover, List.take_append_drop]
      simp only [hm, hmerged, if_neg hm0]
      exact ⟨patience', by rw [hdone, hrest, List.append_assoc]⟩

end ResourceAtlas.Sorting
