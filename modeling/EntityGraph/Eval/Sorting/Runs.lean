import EntityGraph.Eval.Sorting.Merge

/-!
# Sorting by runs

Elements are sorted run by run. A run goes on as long as no element comes before the one in front of
it; if it starts descending, it goes on as long as each does, and is turned around. A short run is
made longer by putting the elements behind it into their places.

Runs wait to be merged. Between two neighbouring runs stands the number of times that the whole has
to be halved until their middles are apart; before the next run waits, all pairs that are further
apart than it is are merged.
-/

namespace EntityGraph.Sorting

variable {α : Type}

/-- A run that waits: where it starts, its elements, and the power between it and the next one. -/
structure Run (α : Type) where
  start : Nat
  elements : List α
  power : Nat

/-- Splits elements after the run that goes on from an element: down as long as each comes before
the last one, or else up as long as it does not. -/
def splitRun (less : Test α) (down : Bool) : α → List α → Outcome (List α × List α)
  | _, [] => .ok ([], [])
  | x, y :: ys => do
    if (← less y x) == down then
      let (run, rest) ← splitRun less down y ys
      .ok (y :: run, rest)
    else .ok ([], y :: ys)

/-- The first run of elements, turned around if it descends, and the other elements. -/
def firstRun (less : Test α) : List α → Outcome (List α × List α)
  | x :: y :: rest => do
    let down ← less y x
    let (run, rest) ← splitRun less down y rest
    let run := x :: y :: run
    .ok (if down then run.reverse else run, rest)
  | xs => .ok (xs, [])

/-- The first run of elements, which is made as long as it has to be at least. -/
def nextRun (less : Test α) (least : Nat) (xs : List α) : Outcome (List α × List α) := do
  let (run, rest) ← firstRun less xs
  let lacking := least - run.length
  .ok (← (rest.take lacking).foldlM (insert less) run, rest.drop lacking)

/-- The least length of runs of so many elements: below 64, and such that the number of runs is a
power of two or a little less. -/
def leastRun (count : Nat) (rest : Nat) : Nat :=
  if 64 ≤ count then leastRun (count / 2) (max rest (count % 2)) else count + rest
termination_by count

/-- How often a whole is halved until two points in it are in different halves, with a bound. -/
def powerBetween (total : Nat) : Nat → Nat → Nat → Nat
  | 0, _, _ => 1
  | bound + 1, a, b =>
    if total ≤ a then powerBetween total bound (2 * (a - total)) (2 * (b - total)) + 1
    else if total ≤ b then 1
    else powerBetween total bound (2 * a) (2 * b) + 1

/-- The power between a run and the next one of a length, among so many elements. -/
def Run.powerBefore (r : Run α) (length total : Nat) : Nat :=
  let a := 2 * r.start + r.elements.length
  powerBetween total total a (a + r.elements.length + length)

/-- Merges a run with the one in front of it. -/
def Run.merge (less : Test α) (many : Nat) (front back : Run α) : Outcome (Run α × Nat) := do
  let (elements, many) ← mergeRuns less many front.elements back.elements
  .ok ({ front with elements }, many)

/-- Merges the last run with those in front of it that a greater power sets apart. -/
def collapse (less : Test α) (power : Nat) :
    Nat → Run α → List (Run α) → Outcome (List (Run α) × Nat)
  | many, last, r :: waiting => do
    if power < r.power then
      let (merged, many) ← r.merge less many last
      collapse less power many merged waiting
    else .ok ({ last with power } :: r :: waiting, many)
  | many, last, [] => .ok ([{ last with power }], many)

/-- Merges all runs. Of three runs, the shorter neighbour of the middle one goes first. -/
def mergeAll (less : Test α) (many : Nat) (last : Run α) : List (Run α) → Outcome (List α)
  | [] => .ok last.elements
  | [r] => do .ok (← r.merge less many last).1.elements
  | r :: s :: waiting => do
    if s.elements.length < last.elements.length then
      let (merged, many) ← s.merge less many r
      mergeAll less many last (merged :: waiting)
    else
      let (merged, many) ← r.merge less many last
      mergeAll less many merged (s :: waiting)
termination_by waiting => waiting.length

/-- Sorts elements behind runs that wait, the last one first. -/
def sortBehind (less : Test α) (total least : Nat) :
    Nat → Nat → List (Run α) → List α → Outcome (List α)
  | 0, _, _, xs => .ok xs
  | _ + 1, many, last :: waiting, [] => mergeAll less many last waiting
  | _ + 1, _, [], [] => .ok []
  | fuel + 1, many, waiting, xs => do
    let (run, rest) ← nextRun less least xs
    let (waiting, many) ← match waiting with
      | last :: waiting => collapse less (last.powerBefore run.length total) many last waiting
      | [] => .ok ([], many)
    sortBehind less total least fuel many (⟨total - xs.length, run, 0⟩ :: waiting) rest

/-- Sorts elements. -/
def sort (less : Test α) (xs : List α) : Outcome (List α) :=
  let total := xs.length
  sortBehind less total (leastRun total 0) (total + 1) Merge.strideLimit [] xs

end EntityGraph.Sorting
