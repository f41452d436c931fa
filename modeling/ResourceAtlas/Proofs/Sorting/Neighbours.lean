import Mathlib.Data.List.Chain
import ResourceAtlas.Proofs.Sorting.Natural
import ResourceAtlas.Proofs.Sorting.Rearranged
import ResourceAtlas.Proofs.Sorting.Stable

/-!
# Neighbours are in order

A comparison need not be consistent for this: as long as of two members at most one precedes the
other, ordering gives a result in which no member precedes the one right ahead of it. A search ends at
a place where the test holds right before it and fails right behind it, whatever the test answers
elsewhere, and a merge puts members next to each other only after such a search.
-/

namespace ResourceAtlas.Sorting

section Search

variable {test : Nat → Outcome Bool} {p : Nat → Bool}

/-- A search by halves ends between its bounds, and unless it ends on one of them the test holds right
before it and fails on it. By induction on the distance. -/
theorem bisect_boundary (htest : ∀ i, test i = .ok (p i)) {low high : Nat} (hle : low ≤ high) :
    ∃ k, bisect test low high = .ok k ∧ low ≤ k ∧ k ≤ high ∧ (low < k → p (k - 1) = true) ∧
      (k < high → p k = false) := by
  induction hn : high - low using Nat.strongRecOn generalizing low high with
  | ind n ih =>
    rw [bisect]
    split
    · next hlt =>
      simp only [htest, bind, Except.bind]
      cases hmiddle : p (low + (high - low) / 2) with
      | true =>
        obtain ⟨k, hk, hlow, hhigh, hbefore, hon⟩ :=
          ih _ (by omega) (show low + (high - low) / 2 + 1 ≤ high by omega) rfl
        refine ⟨k, hk, by omega, hhigh, fun _ => ?_, hon⟩
        rcases Nat.lt_or_ge (low + (high - low) / 2 + 1) k with hbelow | hbelow
        · exact hbefore hbelow
        · rw [show k - 1 = low + (high - low) / 2 by omega]
          exact hmiddle
      | false =>
        obtain ⟨k, hk, hlow, hhigh, hbefore, hon⟩ :=
          ih _ (by omega) (show low ≤ low + (high - low) / 2 by omega) rfl
        refine ⟨k, hk, hlow, by omega, hbefore, fun _ => ?_⟩
        rcases Nat.lt_or_ge k (low + (high - low) / 2) with hbelow | hbelow
        · exact hon hbelow
        · rw [show k = low + (high - low) / 2 by omega]
          exact hmiddle
    · exact ⟨low, rfl, Nat.le_refl low, hle, by omega, by omega⟩

/-- Growing steps end with a distance on which the test held and a next one on which it failed, unless
that is the last one. By induction on how far is left. -/
theorem stride_boundary (htest : ∀ i, test i = .ok (p i)) {most last next : Nat} (hnext : last < next)
    (hmost : last < most) (hlast : p last = true) :
    ∃ l n, stride test most last next = .ok (l, n) ∧ l < n ∧ n ≤ most ∧ p l = true ∧
      (n < most → p n = false) := by
  induction hn : most - next using Nat.strongRecOn generalizing last next with
  | ind n ih =>
    rw [stride]
    split
    · next hlt =>
      simp only [htest, bind, Except.bind]
      cases hp : p next with
      | true => exact ih _ (by omega) (by omega) hlt hp rfl
      | false => exact ⟨last, next, rfl, hnext, by omega, hlast, fun _ => hp⟩
    · exact ⟨last, most, rfl, hmost, Nat.le_refl most, hlast, by omega⟩

/-- A search from a hint ends at a place below the count, or on it, right before which the test holds
and on which it fails. -/
theorem gallop_boundary (htest : ∀ i, test i = .ok (p i)) {count hint : Nat}
    (hpast : ∀ i, count ≤ i → p i = false) (hhint : hint < count ∨ hint = 0) :
    ∃ k, gallop test count hint = .ok k ∧ k ≤ count ∧ (0 < k → p (k - 1) = true) ∧
      (k < count → p k = false) := by
  unfold gallop
  simp only [htest, bind, Except.bind]
  cases hp : p hint with
  | true =>
    have hlt : hint < count := by
      by_contra hge
      rw [hpast hint (by omega)] at hp
      contradiction
    obtain ⟨l, n, hstride, hl, hn, hheld, hfailed⟩ :=
      @stride_boundary (fun i => test (hint + i)) _ (fun i => htest (hint + i)) (count - hint) 0 1
        Nat.zero_lt_one (by omega) hp
    obtain ⟨k, hk, hlow, hhigh, hbefore, hon⟩ :=
      bisect_boundary htest (show hint + l + 1 ≤ hint + n by omega)
    simp only [htest] at hstride
    refine ⟨k, by simp only [hstride, if_pos, hk], by omega, fun _ => ?_, fun hk' => ?_⟩
    · rcases Nat.lt_or_ge (hint + l + 1) k with hbelow | hbelow
      · exact hbefore hbelow
      · rw [show k - 1 = hint + l by omega]
        exact hheld
    · rcases Nat.lt_or_ge k (hint + n) with hbelow | hbelow
      · exact hon hbelow
      · rw [show k = hint + n by omega]
        exact hfailed (by omega)
  | false =>
    obtain ⟨l, n, hstride, hl, hn, hheld, hfailed⟩ :=
      @stride_boundary (fun i => (test (hint - i)).map (!·)) (fun i => !p (hint - i))
        (fun i => by rw [htest]; rfl) (hint + 1) 0 1 Nat.zero_lt_one (by omega)
        (by rw [Nat.sub_zero, hp]; rfl)
    simp only [Bool.not_eq_eq_eq_not, Bool.not_true, Bool.not_false] at hheld hfailed
    obtain ⟨k, hk, hlow, hhigh, hbefore, hon⟩ :=
      bisect_boundary htest (show hint + 1 - n ≤ hint - l by omega)
    simp only [htest] at hstride
    refine ⟨k, by simp [hstride, hk], by omega, fun hpos => ?_, fun _ => ?_⟩
    · rcases Nat.lt_or_ge (hint + 1 - n) k with hbelow | hbelow
      · exact hbefore hbelow
      · rw [show k - 1 = hint - n by omega]
        exact hfailed (by omega)
    · rcases Nat.lt_or_ge k (hint - l) with hbelow | hbelow
      · exact hon hbelow
      · rw [show k = hint - l by omega]
        exact hheld

end Search

section Place

variable {α : Type}

/-- What stands right before a place in a run and right behind it, told from a test at the indices. -/
theorem borders_of_boundary {q : α → Bool} {run : List α} {k : Nat}
    (hbefore : 0 < k → (run[k - 1]?).any q = true) (hle : k ≤ run.length)
    (hon : k < run.length → (run[k]?).any q = false) :
    (∀ a ∈ (run.take k).getLast?, q a = true) ∧ ∀ b ∈ (run.drop k).head?, q b = false := by
  refine ⟨fun a ha => ?_, fun b hb => ?_⟩
  · rw [List.getLast?_take] at ha
    split at ha
    · exact (nomatch ha)
    · next hk =>
      have htest := hbefore (by omega)
      rw [List.getElem?_eq_getElem (by omega : k - 1 < run.length)] at ha htest
      obtain rfl := Option.some.inj ha
      exact htest
  · rw [List.head?_drop] at hb
    obtain ⟨hk, rfl⟩ := List.getElem?_eq_some_iff.mp hb
    have htest := hon hk
    rw [hb] at htest
    exact htest

/-- A place that is searched for after equals: the new member does not precede the member right before
it, and precedes the one right behind it. -/
theorem placeAfter_borders (before : α → α → Bool) (x : α) (run : List α) (hint : Nat)
    (hhint : hint < run.length ∨ hint = 0) :
    ∃ k, placeAfter (answering before) x run hint = .ok k ∧ k ≤ run.length ∧
      (∀ a ∈ (run.take k).getLast?, before x a = false) ∧
      ∀ b ∈ (run.drop k).head?, before x b = true := by
  obtain ⟨k, hk, hle, hbefore, hon⟩ : ∃ k, placeAfter (answering before) x run hint = .ok k ∧
      k ≤ run.length ∧ (0 < k → ((run[k - 1]?).any fun y => !before x y) = true) ∧
      (k < run.length → ((run[k]?).any fun y => !before x y) = false) :=
    @gallop_boundary _ (fun i => (run[i]?).any fun y => !before x y)
      (fun i => by cases run[i]? <;> rfl) _ _
      (fun i hi => by rw [List.getElem?_eq_none hi]; rfl) hhint
  obtain ⟨htake, hdrop⟩ := borders_of_boundary hbefore hle hon
  exact ⟨k, hk, hle, by simpa using htake, by simpa using hdrop⟩

/-- A place that is searched for before equals: the member right before it precedes the new one, and
the one right behind it does not. -/
theorem placeBefore_borders (before : α → α → Bool) (x : α) (run : List α) (hint : Nat)
    (hhint : hint < run.length ∨ hint = 0) :
    ∃ k, placeBefore (answering before) x run hint = .ok k ∧ k ≤ run.length ∧
      (∀ a ∈ (run.take k).getLast?, before a x = true) ∧
      ∀ b ∈ (run.drop k).head?, before b x = false := by
  obtain ⟨k, hk, hle, hbefore, hon⟩ : ∃ k, placeBefore (answering before) x run hint = .ok k ∧
      k ≤ run.length ∧ (0 < k → ((run[k - 1]?).any fun y => before y x) = true) ∧
      (k < run.length → ((run[k]?).any fun y => before y x) = false) :=
    @gallop_boundary _ (fun i => (run[i]?).any fun y => before y x)
      (fun i => by cases run[i]? <;> rfl) _ _
      (fun i hi => by rw [List.getElem?_eq_none hi]; rfl) hhint
  obtain ⟨htake, hdrop⟩ := borders_of_boundary hbefore hle hon
  exact ⟨k, hk, hle, htake, hdrop⟩

end Place

/-- No member precedes the one right ahead of it. -/
def Locally {α : Type} (before : α → α → Bool) (run : List α) : Prop :=
  run.IsChain fun a b => before b a = false

section Mergeable

variable {α : Type} {r : α → α → Prop}

/-- Each of two runs fits between what stands ahead, with what is done, and what stands behind. -/
structure Fits (r : α → α → Prop) (ahead done left right behind : List α) : Prop where
  /-- The first run fits, unless it is used up and the second one is not. -/
  first : left ≠ [] ∨ right = [] → (ahead ++ done.reverse ++ left ++ behind).IsChain r
  /-- The second run fits, unless it is used up and the first one is not. -/
  second : right ≠ [] ∨ left = [] → (ahead ++ done.reverse ++ right ++ behind).IsChain r

/-- A merge can go on: each of the runs fits, and the second one fits ahead of the last member of the
first one. -/
structure Mergeable (r : α → α → Prop) (ahead done left right behind : List α) : Prop extends
    Fits r ahead done left right behind where
  /-- The second run fits ahead of the last member of the first one. -/
  last : ∀ y ∈ right.getLast?, ∀ x ∈ left.getLast?, r y x

variable {ahead done left right behind taken other : List α} {x y z : α}

/-- Members of one run fit ahead of a member of the other one and what comes behind that, if the last of
them fits ahead of that member. -/
theorem isChain_leap (h : (ahead ++ z :: other).IsChain r)
    (htaken : taken ≠ [] → (ahead ++ taken).IsChain r) (hz : ∀ a ∈ taken.getLast?, r a z) :
    (ahead ++ taken ++ z :: other).IsChain r := by
  rcases eq_or_ne taken [] with rfl | hne
  · rwa [List.append_nil]
  · refine (htaken hne).append h.right_of_append fun a ha b hb => ?_
    rw [List.getLast?_append_of_ne_nil _ hne] at ha
    obtain rfl := Option.some.inj hb
    exact hz a ha

/-- Members of the same run fit behind that member, if the first of them fits behind it. -/
theorem isChain_leap_rest (h : (ahead ++ z :: other).IsChain r) {rest : List α} (hrest : rest.IsChain r)
    (hz : ∀ b ∈ rest.head?, r z b) : (ahead ++ z :: rest).IsChain r := by
  have hbefore : (ahead ++ [z]).IsChain r := by
    rw [List.append_cons] at h
    exact h.left_of_append
  rw [List.append_cons]
  refine hbefore.append hrest fun a ha b hb => ?_
  rw [List.getLast?_concat] at ha
  obtain rfl := Option.some.inj ha
  exact hz b hb

/-- Both runs fit in either order. -/
theorem Fits.symm (h : Fits r ahead done left right behind) : Fits r ahead done right left behind :=
  ⟨h.second, h.first⟩

/-- Runs fit after a leap over the first one, and one member of the second one. -/
theorem Fits.leap (h : Fits r ahead done (taken ++ left) (y :: right) behind)
    (htaken : ∀ a ∈ taken.getLast?, r a y) (hrest : ∀ b ∈ left.head?, r y b) :
    Fits r ahead (y :: taken.reverse ++ done) left right behind := by
  have hsecond : (ahead ++ done.reverse ++ y :: (right ++ behind)).IsChain r := by
    simpa using h.second (.inl (List.cons_ne_nil y right))
  have hfirst : taken ++ left ≠ [] →
      (ahead ++ done.reverse ++ (taken ++ (left ++ behind))).IsChain r := by
    intro hne
    simpa using h.first (.inl hne)
  have hleap : (ahead ++ done.reverse ++ taken ++ y :: (right ++ behind)).IsChain r := by
    refine isChain_leap hsecond (fun hne => ?_) htaken
    have hall := hfirst (List.append_ne_nil_of_left_ne_nil hne left)
    rw [← List.append_assoc] at hall
    exact hall.left_of_append
  refine ⟨fun hcase => ?_, fun _ => by simpa using hleap⟩
  by_cases hleft : left = []
  · subst hleft
    obtain rfl := hcase.resolve_left (fun hne => hne rfl)
    simpa using hleap
  · have hbehind : (left ++ behind).IsChain r := by
      have hall := hfirst (List.append_ne_nil_of_right_ne_nil taken hleft)
      rw [← List.append_assoc] at hall
      exact hall.right_of_append
    have hgoes : (ahead ++ done.reverse ++ taken ++ y :: (left ++ behind)).IsChain r :=
      isChain_leap_rest hleap hbehind fun b hb => by
        rw [List.head?_append_of_ne_nil _ hleft] at hb
        exact hrest b hb
    simpa using hgoes

namespace Mergeable

/-- A merge can go on after a leap over the first run, and one member of the second one. -/
theorem leapLeft (h : Mergeable r ahead done (taken ++ left) (y :: right) behind)
    (htaken : ∀ a ∈ taken.getLast?, r a y) (hrest : ∀ b ∈ left.head?, r y b) :
    Mergeable r ahead (y :: taken.reverse ++ done) left right behind where
  toFits := h.toFits.leap htaken hrest
  last b hb a ha :=
    h.last b (List.mem_getLast?_cons hb) a (List.mem_getLast?_append_of_mem_getLast? ha)

/-- A merge can go on after a leap over the second run, and one member of the first one. -/
theorem leapRight (h : Mergeable r ahead done (x :: left) (taken ++ right) behind)
    (htaken : ∀ b ∈ taken.getLast?, r b x) (hrest : ∀ c ∈ right.head?, r x c) :
    Mergeable r ahead (x :: taken.reverse ++ done) left right behind where
  toFits := (h.toFits.symm.leap htaken hrest).symm
  last b hb a ha :=
    h.last b (List.mem_getLast?_append_of_mem_getLast? hb) a (List.mem_getLast?_cons ha)

/-- A merge can go on with the first run after one member of the second one. -/
theorem takeRight (h : Mergeable r ahead done left (y :: right) behind)
    (hnext : ∀ x ∈ left.head?, r y x) : Mergeable r ahead (y :: done) left right behind :=
  leapLeft (show Mergeable r ahead done ([] ++ left) (y :: right) behind from h)
    (fun _ ha => (nomatch ha)) hnext

/-- A merge can go on with the second run after one member of the first one. -/
theorem takeLeft (h : Mergeable r ahead done (x :: left) right behind)
    (hnext : ∀ y ∈ right.head?, r x y) : Mergeable r ahead (x :: done) left right behind :=
  leapRight (show Mergeable r ahead done (x :: left) ([] ++ right) behind from h)
    (fun _ hb => (nomatch hb)) hnext

/-- A merge that ends, ends with neighbours in order. -/
theorem close (h : Mergeable r ahead done left right behind) (hfew : left.length ≤ 1 ∨ right = [])
    (patience : Nat) :
    (ahead ++ (closeFront patience done left right).members ++ behind).IsChain r := by
  unfold closeFront
  split
  · next x =>
    have hfirst : (ahead ++ done.reverse ++ x :: behind).IsChain r := by
      simpa using h.first (.inl (List.cons_ne_nil x []))
    have hleap : (ahead ++ done.reverse ++ right ++ x :: behind).IsChain r := by
      refine isChain_leap hfirst (fun hne => ?_) fun b hb => h.last b hb x rfl
      exact (h.second (.inl hne)).left_of_append
    simpa using hleap
  · next hone =>
    have hend : left = [] ∨ right = [] := by
      match left, hfew with
      | [], _ => exact .inl rfl
      | [x], _ => exact absurd rfl (hone x)
      | _ :: _ :: _, .inr hright => exact .inr hright
    rcases hend with rfl | rfl
    · simpa using h.second (.inr rfl)
    · simpa using h.first (.inr rfl)

end Mergeable

end Mergeable

section Merge

variable {α : Type} {before : α → α → Bool}

/-- A merge gives a result that has its neighbours in order between what stands around it. -/
def GivesChain (before : α → α → Bool) (ahead behind : List α) (result : Outcome (Merged α)) : Prop :=
  ∃ merged, result = .ok merged ∧ Locally before (ahead ++ merged.members ++ behind)

variable (hasymm : ∀ {a b}, before a b = true → before b a = false)
include hasymm

/-- Every step of a merge of some members from the front goes on to a result with neighbours in
order. -/
theorem givesChain_front (ahead behind : List α) :
    FrontSteps (answering before) fun done left right result =>
      Mergeable (fun a b => before b a = false) ahead done left right behind →
      GivesChain before ahead behind result where
  close hfew patience _ h := ⟨_, rfl, h.close hfew patience⟩
  compare := by
    intro done left right x y next hnext hnext' h
    rw [answering_bind]
    cases hyx : before y x with
    | true =>
      have hbehind : ∀ z ∈ (x :: left).head?, before z y = false := by
        simpa using hasymm hyx
      exact hnext (h.takeRight hbehind)
    | false =>
      have hbehind : ∀ z ∈ (y :: right).head?, before z x = false := by
        simpa using hyx
      exact hnext' (h.takeLeft hbehind)
  leapLeft := by
    intro done left right y next hnext h
    obtain ⟨k, hk, -, htake, hdrop⟩ := placeAfter_borders before y left 0 (.inr rfl)
    rw [← List.take_append_drop k left] at h
    rw [hk, ok_bind]
    exact hnext k (h.leapLeft htake fun b hb => hasymm (hdrop b hb))
  leapRight := by
    intro done left right x next hnext h
    obtain ⟨m, hm, -, htake, hdrop⟩ := placeBefore_borders before x right 0 (.inr rfl)
    rw [← List.take_append_drop m right] at h
    rw [hm, ok_bind]
    exact hnext m (h.leapRight (fun b hb => hasymm (htake b hb)) hdrop)

omit hasymm in
/-- A merge from the back ends as the opposite merge from the front does, the other way round. -/
theorem closeBack_members (patience : Nat) (done left right : List α) :
    (closeBack patience done left right).members =
      (closeFront patience done right left).members.reverse := by
  unfold closeBack closeFront
  split
  · simp
  · simp

omit hasymm in
/-- A merge from the back that ends, ends with neighbours in order. -/
theorem givesChain_closeBack {ahead done left right behind : List α}
    (h : Mergeable (fun a b => before a b = false) behind.reverse done right left ahead.reverse)
    (hfew : right.length ≤ 1 ∨ left = []) (patience : Nat) :
    GivesChain before ahead behind (.ok (closeBack patience done left right)) := by
  refine ⟨_, rfl, ?_⟩
  have hclose := List.isChain_reverse.mpr (h.close hfew patience)
  rw [closeBack_members]
  simpa [Locally] using hclose

/-- Every step of a merge of some members from the back goes on to a result with neighbours in order.
Seen from behind, such a merge can go on as one from the front. -/
theorem givesChain_back (ahead behind : List α) :
    BackSteps (answering before) fun done left right result =>
      Mergeable (fun a b => before a b = false) behind.reverse done right left ahead.reverse →
      GivesChain before ahead behind result where
  close hfew patience _ h := givesChain_closeBack h hfew patience
  compare := by
    intro done left right x y next hnext hnext' h
    rw [answering_bind]
    cases hyx : before y x with
    | true =>
      have hahead : ∀ z ∈ (y :: right).head?, before x z = false := by
        simpa using hasymm hyx
      exact hnext (h.takeRight hahead)
    | false =>
      have hahead : ∀ z ∈ (x :: left).head?, before y z = false := by
        simpa using hyx
      exact hnext' (h.takeLeft hahead)
  leapLeft := by
    intro done left right x y next hnext h
    obtain ⟨place, hplace, -, htake, hdrop⟩ := placeAfter_borders before y
      (x :: left).reverse left.length (.inl (by simp))
    rw [List.take_reverse, List.length_cons, List.getLast?_reverse] at htake
    rw [List.drop_reverse, List.length_cons, List.head?_reverse] at hdrop
    rw [← List.take_append_drop (left.length + 1 - place) (x :: left)] at h
    rw [hplace, ok_bind]
    exact hnext place (h.leapRight (fun b hb => hasymm (hdrop b hb)) htake)
  leapRight := by
    intro done left right x y next hnext h
    obtain ⟨place, hplace, -, htake, hdrop⟩ := placeBefore_borders before x
      (y :: right).reverse right.length (.inl (by simp))
    rw [List.take_reverse, List.length_cons, List.getLast?_reverse] at htake
    rw [List.drop_reverse, List.length_cons, List.head?_reverse] at hdrop
    rw [← List.take_append_drop (right.length + 1 - place) (y :: right)] at h
    rw [hplace, ok_bind]
    exact hnext place (h.leapLeft hdrop fun c hc => hasymm (htake c hc))

/-- Two runs whose ends are out of order merge with neighbours in order, from whichever side it is
done. -/
theorem givesChain_mergeApart (patience : Nat) {ahead left right behind : List α} {x y : α}
    (hleft : Locally before (ahead ++ (left ++ [x]) ++ behind))
    (hright : Locally before (ahead ++ (y :: right) ++ behind))
    (hfirst : ∀ a ∈ (left ++ [x]).head?, before y a = true)
    (hlast : ∀ b ∈ (y :: right).getLast?, before b x = true) :
    GivesChain before ahead behind
      (mergeApart (answering before) patience (left ++ [x]) (y :: right)) := by
  unfold mergeApart
  split
  · have h : Mergeable (fun a b => before b a = false) ahead [] (left ++ [x]) (y :: right) behind := by
      refine ⟨⟨fun _ => by simpa [Locally] using hleft, fun _ => by simpa [Locally] using hright⟩,
        fun b hb a ha => ?_⟩
      rw [List.getLast?_concat] at ha
      obtain rfl := Option.some.inj ha
      exact hasymm (hlast b hb)
    have hmerge := (givesChain_front hasymm ahead behind).all.1 patience 0 0 [y] (left ++ [x]) right
      (h.takeRight fun a ha => hasymm (hfirst a ha))
    simpa using hmerge
  · have h : Mergeable (fun a b => before a b = false) behind.reverse [] (y :: right).reverse
        (x :: left.reverse) ahead.reverse := by
      refine ⟨⟨fun _ => ?_, fun _ => ?_⟩, fun a ha b hb => ?_⟩
      · simpa [Locally] using List.isChain_reverse.mpr hright
      · simpa [Locally] using List.isChain_reverse.mpr hleft
      · rw [List.getLast?_reverse] at hb
        obtain rfl := Option.some.inj hb
        rw [show x :: left.reverse = (left ++ [x]).reverse by simp, List.getLast?_reverse] at ha
        exact hasymm (hfirst a ha)
    have hnext : ∀ b ∈ (y :: right).reverse.head?, before x b = false := by
      intro b hb
      rw [List.head?_reverse] at hb
      exact hasymm (hlast b hb)
    have hmerge := (givesChain_back hasymm ahead behind).all.1 patience 0 0 [x] left.reverse
      (y :: right).reverse (h.takeRight hnext)
    simpa using hmerge

/-- Two runs between a stretch of the first one and a stretch of the second one merge with neighbours in
order, if they fit behind the one and ahead of the other and their ends are out of order. -/
theorem givesChain_between (patience : Nat) {ahead left right behind : List α} {x y : α}
    (hleft : Locally before (ahead ++ (left ++ [x]))) (hright : Locally before (y :: right ++ behind))
    (hahead : ∀ a ∈ ahead.getLast?, before y a = false)
    (hbehind : ∀ b ∈ behind.head?, before b x = false)
    (hfirst : ∀ a ∈ (left ++ [x]).head?, before y a = true)
    (hlast : ∀ b ∈ (y :: right).getLast?, before b x = true) :
    GivesChain before ahead behind
      (mergeApart (answering before) patience (left ++ [x]) (y :: right)) := by
  have hbehind' : Locally before behind := hright.right_of_append
  have hahead' : Locally before ahead := hleft.left_of_append
  refine givesChain_mergeApart hasymm patience (hleft.append hbehind' fun a ha b hb => ?_) ?_ hfirst hlast
  · rw [← List.append_assoc, List.getLast?_concat] at ha
    obtain rfl := Option.some.inj ha
    exact hbehind b hb
  · rw [List.append_assoc]
    refine hahead'.append hright fun a ha b hb => ?_
    obtain rfl := Option.some.inj hb
    exact hahead a ha

/-- Two runs with neighbours in order merge into one. -/
theorem exists_mergeRuns_locally (patience : Nat) {left right : List α} (hleft : Locally before left)
    (hright : Locally before right) :
    ∃ merged, mergeRuns (answering before) patience left right = .ok merged ∧
      Locally before merged.members := by
  cases right with
  | nil => exact ⟨⟨left, patience⟩, by simp [mergeRuns], hleft⟩
  | cons y right =>
    obtain ⟨k, hk, -, hktake, hkdrop⟩ :=
      placeAfter_borders before y left 0 (.inr rfl)
    unfold mergeRuns
    simp only [List.head?_cons, hk, bind, Except.bind]
    cases hx : (left.drop k).getLast? with
    | none =>
      refine ⟨_, rfl, hleft.append hright fun a ha b hb => ?_⟩
      obtain rfl := Option.some.inj hb
      rw [← List.take_of_length_le (List.drop_eq_nil_iff.mp (List.getLast?_eq_none_iff.mp hx))] at ha
      exact hktake a ha
    | some x =>
      obtain ⟨init, hinit⟩ := List.getLast?_eq_some_iff.mp hx
      have hall : left = left.take k ++ (init ++ [x]) := by
        rw [← hinit, List.take_append_drop]
      obtain ⟨m, hm, -, hmtake, hmdrop⟩ := placeBefore_borders before x
        (y :: right) ((y :: right).length - 1) (.inl (by simp))
      simp only [hm]
      split
      · next hm0 =>
        subst hm0
        refine ⟨_, rfl, hleft.append hright fun a ha b hb => ?_⟩
        rw [hall, ← List.append_assoc, List.getLast?_concat] at ha
        obtain rfl := Option.some.inj ha
        exact hmdrop b hb
      · next hm0 =>
        obtain ⟨m, rfl⟩ := Nat.exists_eq_succ_of_ne_zero hm0
        rw [hinit] at hkdrop
        rw [List.take_succ_cons] at hmtake
        have hright' : Locally before (y :: right.take m ++ (y :: right).drop (m + 1)) := by
          rwa [← List.take_succ_cons, List.take_append_drop]
        obtain ⟨merged, hmerged, hchain⟩ :=
          givesChain_between hasymm patience (hall ▸ hleft) hright' hktake hmdrop hkdrop hmtake
        refine ⟨⟨left.take k ++ merged.members ++ (y :: right).drop (m + 1), merged.patience⟩, ?_,
          hchain⟩
        rw [hinit, List.take_succ_cons, hmerged]

end Merge

section Runs

variable {α : Type} {before : α → α → Bool}
variable (hasymm : ∀ {a b}, before a b = true → before b a = false)
include hasymm

/-- Members inserted one by one into a list with neighbours in order keep it so. -/
theorem exists_insertEach_locally (more : List α) {ordered : List α} (h : Locally before ordered) :
    ∃ run, insertEach (answering before) ordered more = .ok run ∧ Locally before run := by
  induction more generalizing ordered with
  | nil => exact ⟨ordered, rfl, h⟩
  | cons x rest ih =>
    obtain ⟨k, hk, -, hle, hbefore, hon⟩ := @bisect_boundary
      (fun i => .ok ((ordered[i]?).any fun y => !before x y))
      (fun i => (ordered[i]?).any fun y => !before x y)
      (fun _ => rfl) 0 ordered.length (Nat.zero_le ordered.length)
    obtain ⟨htake, hdrop⟩ := borders_of_boundary hbefore hle hon
    have hahead : Locally before (ordered.take k) := h.prefix (List.take_prefix _ _)
    have hbehind : Locally before (ordered.drop k) := h.suffix (List.drop_suffix _ _)
    have hplaced : Locally before (ordered.take k ++ x :: ordered.drop k) := by
      refine hahead.append (List.isChain_cons.mpr ⟨fun b hb => ?_, hbehind⟩) fun a ha b hb => ?_
      · have hxb := hdrop b hb
        rw [Bool.not_eq_eq_eq_not, Bool.not_false] at hxb
        exact hasymm hxb
      · obtain rfl := Option.some.inj hb
        simpa using htake a ha
    obtain ⟨run, hrun, hchain⟩ := ih hplaced
    refine ⟨run, bind_eq_ok.mpr ⟨k, Eq.trans ?_ hk, hrun⟩, hchain⟩
    congr 1
    funext i
    cases ordered[i]? <;> rfl

omit hasymm in
/-- Members that are counted as going on in a direction do so, each from the one ahead of it. -/
theorem exists_runLength_isChain (before : α → α → Bool) (down : Bool) (last : α) (rest : List α) :
    ∃ count, runLength (answering before) down last rest = .ok count ∧
      (last :: rest.take count).IsChain fun a b => before b a = down := by
  induction rest generalizing last with
  | nil => exact ⟨0, rfl, List.isChain_singleton last⟩
  | cons x rest ih =>
    rw [runLength]
    simp only [answering, bind, Except.bind]
    split
    · next hdown =>
      obtain ⟨count, hcount, hchain⟩ := ih x
      refine ⟨count + 1, map_eq_ok.mpr ⟨count, hcount, rfl⟩, ?_⟩
      rw [List.take_succ_cons]
      exact List.isChain_cons_cons.mpr ⟨hdown, hchain⟩
    · exact ⟨0, rfl, List.isChain_singleton last⟩

/-- The run that members start with has neighbours in order. -/
theorem exists_firstRun_locally (minimum : Nat) (x : α) (rest : List α) :
    ∃ run following, firstRun (answering before) minimum x rest = .ok (run, following) ∧
      Locally before run := by
  have hgo : ∀ down : Bool, ∃ run following, (do
      let count ← runLength (answering before) down x rest
      let natural := x :: rest.take count
      let ordered := if down then natural.reverse else natural
      let more := (rest.drop count).take (minimum - (count + 1))
      let run ← insertEach (answering before) ordered more
      .ok (run, max count (minimum - 1)) : Outcome (List α × Nat)) = .ok (run, following) ∧
        Locally before run := by
    intro down
    obtain ⟨count, hcount, hnatural⟩ := exists_runLength_isChain before down x rest
    have hordered : Locally before
        (if down then (x :: rest.take count).reverse else x :: rest.take count) := by
      cases down with
      | false => exact hnatural
      | true => exact List.isChain_reverse.mpr (hnatural.imp fun _ _ hba => hasymm hba)
    obtain ⟨run, hrun, hchain⟩ := exists_insertEach_locally hasymm
      ((rest.drop count).take (minimum - (count + 1))) hordered
    exact ⟨run, _, bind_eq_ok.mpr ⟨count, hcount, bind_eq_ok.mpr ⟨run, hrun, rfl⟩⟩, hchain⟩
  cases rest with
  | nil => exact hgo false
  | cons y rest => exact hgo (before y x)

/-- All runs of a pile have neighbours in order. -/
def PileLocally (before : α → α → Bool) (runs : List (Run α)) : Prop :=
  ∀ run ∈ runs, Locally before run.members

/-- Merging runs on top of a pile keeps neighbours in order, by induction on the pile. -/
theorem exists_makeRoom_locally (power patience : Nat) {runs : List (Run α)}
    (h : PileLocally before runs) :
    ∃ pile, makeRoom (answering before) power patience runs = .ok pile ∧
      PileLocally before pile.runs := by
  induction hn : runs.length using Nat.strongRecOn generalizing patience runs with
  | ind n ih =>
    match runs, h with
    | [], h => exact ⟨⟨[], patience⟩, by rw [makeRoom], h⟩
    | [run], h =>
      refine ⟨_, by rw [makeRoom], fun other hother => ?_⟩
      obtain rfl := List.mem_singleton.mp hother
      exact h run List.mem_cons_self
    | second :: first :: rest, h =>
      obtain ⟨hsecond, hothers⟩ := List.forall_mem_cons.mp h
      obtain ⟨hfirst, hrest⟩ := List.forall_mem_cons.mp hothers
      rw [makeRoom]
      split
      · obtain ⟨merged, hmerged, hchain⟩ :=
          exists_mergeRuns_locally hasymm patience hfirst hsecond
        obtain ⟨pile, hpile, hall⟩ := ih _ (by rw [← hn]; simp) merged.patience
          (show PileLocally before (⟨first.start, merged.members, 0⟩ :: rest) from
            List.forall_mem_cons.mpr ⟨hchain, hrest⟩) rfl
        exact ⟨pile, bind_eq_ok.mpr ⟨merged, hmerged, hpile⟩, hall⟩
      · exact ⟨_, rfl, List.forall_mem_cons.mpr ⟨hsecond, hothers⟩⟩

/-- A run with neighbours in order goes on a pile of such runs. -/
theorem exists_push_locally (whole start : Nat) {pile : Pile α} {members : List α}
    (h : PileLocally before pile.runs) (hmembers : Locally before members) :
    ∃ pile', pile.push (answering before) whole start members = .ok pile' ∧
      PileLocally before pile'.runs := by
  unfold Pile.push
  cases hruns : pile.runs with
  | nil => exact ⟨_, rfl, List.forall_mem_cons.mpr ⟨hmembers, h⟩⟩
  | cons run rest =>
    rw [hruns] at h
    obtain ⟨room, hroom, hall⟩ :=
      exists_makeRoom_locally hasymm (borderPower whole run members.length) pile.patience h
    exact ⟨_, bind_eq_ok.mpr ⟨room, hroom, rfl⟩, List.forall_mem_cons.mpr ⟨hmembers, hall⟩⟩

/-- All members go on a pile in runs with neighbours in order, by induction on how many there are. -/
theorem exists_pileUp_locally (whole minimum start : Nat) {pile : Pile α} (members : List α)
    (h : PileLocally before pile.runs) :
    ∃ pile', pileUp (answering before) whole minimum pile start members = .ok pile' ∧
      PileLocally before pile'.runs := by
  induction hn : members.length using Nat.strongRecOn generalizing pile start members with
  | ind n ih =>
    cases members with
    | nil => exact ⟨pile, by rw [pileUp], h⟩
    | cons x rest =>
      obtain ⟨run, following, hrun, hchain⟩ := exists_firstRun_locally hasymm minimum x rest
      obtain ⟨pushed, hpushed, hall⟩ := exists_push_locally hasymm whole start h hchain
      have hshorter : (rest.drop following).length < n := by
        rw [← hn, List.length_drop, List.length_cons]
        omega
      obtain ⟨pile', hpile', hdone⟩ := ih _ hshorter (start + run.length) _ hall rfl
      refine ⟨pile', ?_, hdone⟩
      rw [pileUp]
      exact bind_eq_ok.mpr ⟨_, hrun, bind_eq_ok.mpr ⟨pushed, hpushed, hpile'⟩⟩

/-- The runs of a pile merge into members with neighbours in order, by induction on the pile. -/
theorem exists_collapse_locally (patience : Nat) {runs : List (Run α)} (h : PileLocally before runs) :
    ∃ out, collapse (answering before) patience runs = .ok out ∧ Locally before out := by
  induction hn : runs.length using Nat.strongRecOn generalizing patience runs with
  | ind n ih =>
    match runs, h with
    | [], _ => exact ⟨[], by rw [collapse], List.isChain_nil⟩
    | [run], h => exact ⟨run.members, by rw [collapse], h run List.mem_cons_self⟩
    | [third, second], h =>
      obtain ⟨merged, hmerged, hchain⟩ := exists_mergeRuns_locally hasymm patience
        (h second (by simp)) (h third (by simp))
      rw [collapse]
      exact ⟨_, bind_eq_ok.mpr ⟨merged, hmerged, rfl⟩, hchain⟩
    | third :: second :: first :: rest, h =>
      obtain ⟨hthird, hothers⟩ := List.forall_mem_cons.mp h
      obtain ⟨hsecond, hothers⟩ := List.forall_mem_cons.mp hothers
      obtain ⟨hfirst, hrest⟩ := List.forall_mem_cons.mp hothers
      rw [collapse]
      split
      · obtain ⟨merged, hmerged, hchain⟩ :=
          exists_mergeRuns_locally hasymm patience hfirst hsecond
        obtain ⟨out, hout, hall⟩ := ih _ (by rw [← hn]; simp) merged.patience
          (show PileLocally before (third :: ⟨first.start, merged.members, 0⟩ :: rest) from
            List.forall_mem_cons.mpr ⟨hthird, List.forall_mem_cons.mpr ⟨hchain, hrest⟩⟩) rfl
        exact ⟨out, bind_eq_ok.mpr ⟨merged, hmerged, hout⟩, hall⟩
      · obtain ⟨merged, hmerged, hchain⟩ :=
          exists_mergeRuns_locally hasymm patience hsecond hthird
        obtain ⟨out, hout, hall⟩ := ih _ (by rw [← hn]; simp) merged.patience
          (show PileLocally before (⟨second.start, merged.members, 0⟩ :: first :: rest) from
            List.forall_mem_cons.mpr ⟨hchain, List.forall_mem_cons.mpr ⟨hfirst, hrest⟩⟩) rfl
        exact ⟨out, bind_eq_ok.mpr ⟨merged, hmerged, hout⟩, hall⟩

/-- Ordering gives a result in which no member precedes the one right ahead of it. -/
theorem exists_sortMembers_locally (members : List α) :
    ∃ out, sortMembers (answering before) members = .ok out ∧ Locally before out := by
  unfold sortMembers
  dsimp only
  split
  · next hfew =>
    refine ⟨members, rfl, ?_⟩
    match members, hfew with
    | [], _ => exact List.isChain_nil
    | [x], _ => exact List.isChain_singleton x
  · have hempty : PileLocally before (⟨[], leapLength⟩ : Pile α).runs :=
      fun _ h => absurd h List.not_mem_nil
    obtain ⟨pile, hpile, hall⟩ :=
      exists_pileUp_locally hasymm members.length (minimumRun members.length) 0 members hempty
    obtain ⟨out, hout, hchain⟩ := exists_collapse_locally hasymm pile.patience hall
    exact ⟨out, bind_eq_ok.mpr ⟨pile, hpile, hout⟩, hchain⟩

end Runs

end ResourceAtlas.Sorting
