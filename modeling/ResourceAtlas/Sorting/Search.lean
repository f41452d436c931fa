import ResourceAtlas.Fault

/-!
# Searching for a boundary

A test that holds on the first indices and fails on all later ones has a boundary, the first index
on which it fails. `bisect` finds it by halves. `gallop` looks from a hint onward in steps that
double and halves what the last step passed over. Both answer for any other test too, and then the
answer depends on which indices they ask about.
-/

namespace ResourceAtlas.Sorting

/-- The boundary of a test between two indices. -/
def bisect (test : Nat → Outcome Bool) (low high : Nat) : Outcome Nat :=
  if _h : low < high then do
    let middle := low + (high - low) / 2
    if ← test middle then bisect test (middle + 1) high else bisect test low middle
  else .ok low
termination_by high - low

/-- Take steps that double as long as a test holds and fewer than `most` indices are passed over.
The answer is the last distance on which the test held and the next one. -/
def stride (test : Nat → Outcome Bool) (most last next : Nat) : Outcome (Nat × Nat) :=
  if _h : next < most then do
    if ← test next then stride test most next (2 * next + 1) else .ok (last, next)
  else .ok (last, most)
termination_by most - next

/-- The boundary of a test below a count, looked for from a hint that is below the count. -/
def gallop (test : Nat → Outcome Bool) (count hint : Nat) : Outcome Nat := do
  if ← test hint then
    let (last, next) ← stride (fun i => test (hint + i)) (count - hint) 0 1
    bisect test (hint + last + 1) (hint + next)
  else
    let (last, next) ← stride (fun i => (test (hint - i)).map (!·)) (hint + 1) 0 1
    bisect test (hint + 1 - next) (hint - last)

end ResourceAtlas.Sorting
