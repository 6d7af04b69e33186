import EntityGraph.Eval.Sorting.Runs
import EntityGraph.Value.Operate

/-!
# Sorting by keys

Elements are sorted by keys that were computed beforehand. A missing key comes before every other
one and is never compared. Elements whose keys are equal keep their order; this holds also when the
order of the keys is reversed, in which the missing ones come last.

Comparing two keys may fail, and so may sorting. Keys need not be in a total order either, since an
undefined number is neither less nor greater than any other. What sorting gives then depends on
which keys are compared.
-/

namespace EntityGraph.Sorting

/-- An element behind its key. -/
abbrev Keyed := Value × Value

/-- Whether the first key comes before the second. -/
def before (w : World) (a b : Value) : Outcome Bool :=
  if a.isNone then .ok (!b.isNone)
  else if b.isNone then .ok false
  else do
    if ← Value.same w a b then .ok false
    else Value.truth w (← Value.operate w .lt a b)

/-- Whether the key of the first element comes before that of the second. -/
def keyBefore (w : World) (x y : Keyed) : Outcome Bool := before w x.1 y.1

/-- Elements in ascending order of their keys, equal ones in their own order. -/
def ascending (w : World) (xs : List Keyed) : Outcome (List Keyed) := sort (keyBefore w) xs

/-- Elements in descending order of their keys, equal ones in their own order. -/
def descending (w : World) (xs : List Keyed) : Outcome (List Keyed) := do
  .ok (← sort (keyBefore w) xs.reverse).reverse

end EntityGraph.Sorting
