import EntityGraph.Value.Equality
import EntityGraph.Value.Shown

/-!
# The order of values

Numbers are ordered by their exact values, texts by code points, bytes, dates, spans and UUIDs in
the natural way. Timestamps are ordered among those with a zone and among those without one. Lists
and tuples are ordered by the first pair of elements that differ, and by length if there is none. A
set is less than another one if it is a proper part of it. Values of other kinds, and of different
kinds, have no order.
-/

namespace EntityGraph

/-- The four ways to ask for an order. -/
inductive Relation where
  | lt | le | gt | ge
  deriving DecidableEq, Repr, Inhabited

namespace Relation

/-- How a relation is written. -/
def symbol : Relation → String
  | lt => "<"
  | le => "<="
  | gt => ">"
  | ge => ">="

/-- Whether a relation holds between things that compare so. -/
def holds : Relation → Ordering → Bool
  | lt, o => o == .lt
  | le, o => o != .gt
  | gt, o => o == .gt
  | ge, o => o != .lt

end Relation

namespace Value

/-- How two times compare. A date and a timestamp do not, nor do a timestamp with a zone and one
without. -/
def compareTimes? : Value → Value → Outcome (Option Ordering)
  | date x, date y => .ok (some (x.compare y))
  | timestamp x, timestamp y =>
    if x.comparable y then .ok (some (x.compare y))
    else .error (.wrongType "can't compare offset-naive and offset-aware datetimes")
  | timestamp _, date _ | date _, timestamp _ =>
    .error (.wrongType "can't compare datetime.datetime to datetime.date")
  | span x, span y => .ok (some (compare x.micros y.micros))
  | _, _ => .ok Option.none

/-- How two texts, byte strings or UUIDs compare. -/
def compareTexts? : Value → Value → Option Ordering
  | str s, str t => some (compare s t)
  | bytes x, bytes y => some (compare (x.map UInt8.toNat) (y.map UInt8.toNat))
  | uuid x, uuid y => some (compare x.value y.value)
  | _, _ => Option.none

/-- How two atoms of one kind compare: nothing if they have no order, and no ordering if one of them
is an undefined number. -/
def compareAtoms? (a b : Value) : Outcome (Option (Option Ordering)) := do
  match a.quantity?, b.quantity? with
  | some x, some y => x.compare? y
  | _, _ =>
    match compareTexts? a b with
    | some o => .ok (some (some o))
    | Option.none => .ok ((← compareTimes? a b).map some)

/-- The first pair of elements that differ. -/
def firstDifference (w : World) : List Value → List Value → Outcome (Option (Value × Value))
  | a :: as, b :: bs => do
    if ← same w a b then firstDifference w as bs else .ok (some (a, b))
  | _, _ => .ok Option.none

/-- Two values seen as lists, or as tuples. -/
def sequences? (w : World) : Value → Value → Option (List Value × List Value)
  | list xs, list ys => some (xs, ys)
  | a, b =>
    match a.tupleView? w, b.tupleView? w with
    | some xs, some ys => some (xs, ys)
    | _, _ => Option.none

/-- The fault of asking for an order that does not exist. -/
def noOrder (w : World) (r : Relation) (a b : Value) : Fault :=
  .wrongType ("'" ++ r.symbol ++ "' not supported between instances of '" ++ a.fullTypeName w
    ++ "' and '" ++ b.fullTypeName w ++ "'")

/-- Whether a set of values stands in a relation to another one. -/
def relatedSets (w : World) (r : Relation) (xs ys : List Value) : Outcome Bool :=
  match r with
  | .lt => if xs.length < ys.length then allAmong (same w) xs ys else .ok false
  | .le => if xs.length ≤ ys.length then allAmong (same w) xs ys else .ok false
  | .gt => if ys.length < xs.length then allAmong (same w) ys xs else .ok false
  | .ge => if ys.length ≤ xs.length then allAmong (same w) ys xs else .ok false

/-- Whether a relation holds between two values, with a bound on the depth. -/
def relatedTo (w : World) (r : Relation) : Nat → Value → Value → Outcome Bool
  | 0, _, _ => .error (.host .tooDeep "maximum recursion depth exceeded in comparison")
  | depth + 1, a, b => do
    match ← compareAtoms? a b with
    | some o => .ok (o.any r.holds)
    | Option.none =>
      match a, b with
      | set xs, set ys => relatedSets w r xs ys
      | a, b =>
        match sequences? w a b with
        | some (xs, ys) => do
          match ← firstDifference w xs ys with
          | some (x, y) => relatedTo w r depth x y
          | Option.none => .ok (r.holds (compare xs.length ys.length))
        | Option.none => .error (noOrder w r a b)

/-- Whether a relation holds between two values. -/
def related (w : World) (r : Relation) (a b : Value) : Outcome Bool :=
  relatedTo w r depthLimit a b

end Value

end EntityGraph
