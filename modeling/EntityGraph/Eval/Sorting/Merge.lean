import EntityGraph.Eval.Sorting.Place

/-!
# Merging sorted runs

Two neighbouring runs of sorted elements are merged into one. What is in place already stays there:
the front of the left run and the back of the right one. The rest is merged from the front if the
left run is the shorter one, else from the back.

Elements are taken one by one until one run supplied many in a row. Then they are taken in strides,
as long as these are long enough. How many elements in a row are many is adapted on the way and
remembered from one merge to the next.
-/

namespace EntityGraph.Sorting

variable {α : Type}

/-- Two runs on the way of being merged, from the front or from the back. What is left of them and
what was taken is in the order of taking; what was taken last comes first. -/
structure Merge (α : Type) where
  forwards : Bool
  taken : List α
  left : List α
  right : List α

/-- How elements are taken: singly, after so many in a row from the left run and from the right one,
or in strides. -/
inductive Pace where
  | single (left right : Nat)
  | striding

namespace Merge

/-- Takes elements of the left run. -/
def takeLeft (m : Merge α) (n : Nat) : Merge α :=
  { m with taken := (m.left.take n).reverse ++ m.taken, left := m.left.drop n }

/-- Takes elements of the right run. -/
def takeRight (m : Merge α) (n : Nat) : Merge α :=
  { m with taken := (m.right.take n).reverse ++ m.taken, right := m.right.drop n }

/-- All elements in the order of taking, once nothing is left of the longer run or at most one
element of the shorter one. That element is the last of all. -/
def finished? (m : Merge α) : Option (List α) :=
  let (shorter, longer) := if m.forwards then (m.left, m.right) else (m.right, m.left)
  if longer.isEmpty || shorter.length ≤ 1 then some (m.taken.reverse ++ longer ++ shorter) else none

/-- All elements in the order of taking, or what else merging gives if it is not finished. -/
def orElse (m : Merge α) (many : Nat) (go : Merge α → Outcome (List α × Nat)) :
    Outcome (List α × Nat) :=
  (m.finished?).elim (go m) fun xs => .ok (xs, many)

/-- The number of elements at the head of a run that a stride covers; `behind` tells whether its end
is behind an element in the order of the elements. -/
def ahead (m : Merge α) (behind : α → Outcome Bool) (xs : List α) : Outcome Nat := do
  if m.forwards then placeNear (at? behind xs) xs.length 0
  else
    let last := xs.length - 1
    .ok (xs.length - (← placeNear (fun i => at? behind xs (last - i)) xs.length last))

/-- Takes those elements of the left run that go before what is next of the right one. -/
def strideLeft (less : Test α) (m : Merge α) : Outcome (Merge α × Nat) :=
  match m.right with
  | [] => .ok (m, 0)
  | y :: _ => do
    let n ← m.ahead (notAfter less y) m.left
    .ok (m.takeLeft n, n)

/-- Takes those elements of the right run that go before what is next of the left one. -/
def strideRight (less : Test α) (m : Merge α) : Outcome (Merge α × Nat) :=
  match m.left with
  | [] => .ok (m, 0)
  | x :: _ => do
    let n ← m.ahead (less · x) m.right
    .ok (m.takeRight n, n)

/-- How many elements a stride must cover to be worth it. -/
def strideLimit : Nat := 7

/-- Merges what is left, where so many elements in a row are many. The result is in the order of
taking. -/
def run (less : Test α) : Nat → Pace → Nat → Merge α → Outcome (List α × Nat)
  | 0, _, many, m => .ok (m.taken.reverse ++ m.left ++ m.right, many)
  | fuel + 1, .single l r, many, m =>
    match m.left, m.right with
    | x :: _, y :: _ => do
      let fromRight := (← less y x) == m.forwards
      let (m, l, r) := if fromRight then (m.takeRight 1, 0, r + 1) else (m.takeLeft 1, l + 1, 0)
      m.orElse many fun m =>
        if many ≤ max l r then run less fuel .striding (many + 1) m
        else run less fuel (.single l r) many m
    | xs, ys => .ok (m.taken.reverse ++ xs ++ ys, many)
  | fuel + 1, .striding, many, m => do
    let many := max 1 (many - 1)
    let (m, l) ← m.strideLeft less
    m.orElse many fun m => (m.takeRight 1).orElse many fun m => do
      let (m, r) ← m.strideRight less
      m.orElse many fun m => (m.takeLeft 1).orElse many fun m =>
        if strideLimit ≤ max l r then run less fuel .striding many m
        else run less fuel (.single 0 0) (many + 1) m

end Merge

/-- Merges two runs in which nothing is in place. -/
def mergeInner (less : Test α) (many : Nat) (xs ys : List α) : Outcome (List α × Nat) := do
  let forwards := xs.length ≤ ys.length
  let start : Merge α :=
    if forwards then (Merge.mk true [] xs ys).takeRight 1
    else (Merge.mk false [] xs.reverse ys.reverse).takeLeft 1
  let (zs, many) ← start.orElse many (Merge.run less (xs.length + ys.length) (.single 0 0) many)
  .ok (if forwards then zs else zs.reverse, many)

/-- Merges two neighbouring runs, where so many elements in a row are many. -/
def mergeRuns (less : Test α) (many : Nat) (xs ys : List α) : Outcome (List α × Nat) := do
  let some y := ys.head? | .ok (xs, many)
  let (front, xs) := xs.splitAt (← placeNear (at? (notAfter less y) xs) xs.length 0)
  let some x := xs.getLast? | .ok (front ++ ys, many)
  let (ys, back) :=
    ys.splitAt (← placeNear (at? (less · x) ys) ys.length (ys.length - 1))
  if ys.isEmpty then .ok (front ++ xs ++ back, many)
  else
    let (zs, many) ← mergeInner less many xs ys
    .ok (front ++ zs ++ back, many)

end EntityGraph.Sorting
