import ResourceAtlas.Proofs.Outcome
import ResourceAtlas.Sorting.Search

/-!
# Searching finds the boundary

A test that holds below a boundary and fails from there on is answered with the boundary, by halves
and in growing steps alike, and from every hint.
-/

namespace ResourceAtlas.Sorting

variable {test : Nat → Outcome Bool} {bound : Nat}

/-- A test holds on the indices below a boundary and on no others, as far as it is asked. -/
def HoldsBelow (test : Nat → Outcome Bool) (bound most : Nat) : Prop :=
  ∀ i, i < most → test i = .ok (decide (i < bound))

/-- Halving finds the boundary between two indices, by induction on how far they are apart. -/
theorem bisect_eq {low high : Nat} (htest : HoldsBelow test bound high) (hlow : low ≤ bound)
    (hhigh : bound ≤ high) : bisect test low high = .ok bound := by
  induction hn : high - low using Nat.strongRecOn generalizing low high with
  | ind n ih =>
    rw [bisect]
    split
    · next hlt =>
      have hmiddle := htest (low + (high - low) / 2) (by omega)
      simp only [hmiddle, bind, Except.bind, decide_eq_true_eq]
      split
      · next hbelow => exact ih _ (by omega) htest (by omega) hhigh rfl
      · next hbelow =>
        have hrest : HoldsBelow test bound (low + (high - low) / 2) :=
          fun i hi => htest i (by omega)
        exact ih _ (by omega) hrest hlow (by omega) rfl
    · have heq : low = bound := by omega
      rw [heq]

/-- Growing steps pass over the boundary: it lies after the last distance on which the test held
and not after the next one. By induction on how many indices are left. -/
theorem stride_ok {most : Nat} (last next : Nat) (htest : HoldsBelow test bound most)
    (hlast : last < bound) (hmost : bound ≤ most) :
    ∃ l n, stride test most last next = .ok (l, n) ∧ l < bound ∧ bound ≤ n ∧ n ≤ most := by
  induction hn : most - next using Nat.strongRecOn generalizing last next with
  | ind n ih =>
    rw [stride]
    split
    · next hlt =>
      simp only [htest next hlt, bind, Except.bind, decide_eq_true_eq]
      split
      · next hbelow => exact ih _ (by omega) next _ hbelow rfl
      · exact ⟨last, next, rfl, hlast, by omega, by omega⟩
    · exact ⟨last, most, rfl, hlast, hmost, Nat.le_refl most⟩

/-- Looking from a hint onward finds the boundary, on whichever side of the hint it lies. -/
theorem gallop_eq {count : Nat} (htest : ∀ most, HoldsBelow test bound most) (hcount : bound ≤ count)
    (hint : Nat) : gallop test count hint = .ok bound := by
  unfold gallop
  simp only [htest _ hint (Nat.lt_succ_self hint), bind, Except.bind, decide_eq_true_eq]
  split
  · next hbelow =>
    have hahead : HoldsBelow (fun i => test (hint + i)) (bound - hint) (count - hint) := by
      intro i _
      have hlt : hint + i < bound ↔ i < bound - hint := by omega
      simp only [htest _ (hint + i) (Nat.lt_succ_self _), hlt]
    obtain ⟨l, n, hstride, hl, hn, hmost⟩ := stride_ok 0 1 hahead (by omega) (by omega)
    simp only [hstride]
    exact bisect_eq (htest _) (by omega) (by omega)
  · next hbelow =>
    -- The steps go down, so the test is turned round and its boundary counted from the hint.
    have hbehind : HoldsBelow (fun i => (test (hint - i)).map (!·)) (hint + 1 - bound) (hint + 1) := by
      intro i hi
      have hlt : hint - i < bound ↔ ¬ i < hint + 1 - bound := by omega
      simp only [htest _ (hint - i) (Nat.lt_succ_self _), hlt, Except.map, decide_not, Bool.not_not]
    obtain ⟨l, n, hstride, hl, hn, hmost⟩ := stride_ok 0 1 hbehind (by omega) (by omega)
    simp only [hstride]
    exact bisect_eq (htest _) (by omega) (by omega)

end ResourceAtlas.Sorting
