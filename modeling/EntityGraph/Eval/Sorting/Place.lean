import EntityGraph.Fault

/-!
# Places among sorted elements

The place of an element among sorted ones is found by halving the range in which it must be. If it
is likely to be near one end, the range is found first, in strides from there that grow twofold.

Asking whether a place is behind another may fail, and the answers may contradict each other. What
is found then depends on which places are asked for.
-/

namespace EntityGraph.Sorting

/-- Tells whether one element comes before another. -/
abbrev Test (α : Type) := α → α → Outcome Bool

/-- The place between two places that is found by halving; `behind` tells whether it is behind
another. -/
def halve (behind : Nat → Outcome Bool) (low high : Nat) : Outcome Nat :=
  if low < high then do
    let middle := low + (high - low) / 2
    if ← behind middle then halve behind (middle + 1) high else halve behind low middle
  else .ok low
termination_by high - low
decreasing_by all_goals omega

/-- Goes in growing strides as long as a test holds and a limit is not reached: the distance at
which it held last, and the next one. -/
def stride (holds : Nat → Outcome Bool) (limit : Nat) : Nat → Nat → Nat → Outcome (Nat × Nat)
  | 0, last, next => .ok (last, next)
  | fuel + 1, last, next => do
    if limit ≤ next then .ok (last, limit)
    else if ← holds next then stride holds limit fuel next (2 * next + 1)
    else .ok (last, next)

/-- The place among so many elements, one of which is a hint; `behind` tells whether it is behind
another. -/
def placeNear (behind : Nat → Outcome Bool) (count hint : Nat) : Outcome Nat := do
  if ← behind hint then
    let (last, next) ← stride (fun d => behind (hint + d)) (count - hint) count 0 1
    halve behind (hint + last + 1) (hint + next)
  else
    let inFront := fun d => do .ok (!(← behind (hint - d)))
    let (last, next) ← stride inFront (hint + 1) count 0 1
    halve behind (hint + 1 - next) (hint - last)

section

variable {α : Type}

/-- Asks a test of the element at a place. -/
def at? (test : α → Outcome Bool) (xs : List α) (i : Nat) : Outcome Bool :=
  xs[i]?.elim (.ok false) test

/-- A test that is passed by what does not come after an element. -/
def notAfter (less : Test α) (x y : α) : Outcome Bool := do .ok (!(← less x y))

/-- Puts an element into its place among sorted ones, behind those that it does not come before. -/
def insert (less : Test α) (sorted : List α) (x : α) : Outcome (List α) := do
  let place ← halve (at? (notAfter less x) sorted) 0 sorted.length
  .ok (sorted.take place ++ x :: sorted.drop place)

end

end EntityGraph.Sorting
