import EntityGraph.Value.Medium
import EntityGraph.Value.Order

/-!
# Values as collections

Whether a value counts as true, how many elements it has, which ones they are, whether it contains
another value, and what it holds at a key or an index. A recording proxy refuses to be asked: of
these questions only the last one can be recorded.

A set lists numbers by their residues modulo a power of two that grows with the set.
-/

namespace EntityGraph

namespace Value

/-- The elements of a list, a tuple, a set, a text, bytes, or the keys of a dictionary or a
record. -/
def elements? (w : World) : Value → Option (List Value)
  | list vs | set vs => some vs
  | str s => some (s.toList.map fun c => str c.toString)
  | dict es | orderedDict es _ => some (es.map (·.1))
  | bytes bs => some (bs.map fun b => int b.toNat)
  | record _ fs => some (fs.map fun (n, _) => str n)
  | v => v.tupleView? w

/-- A value's elements one by one. -/
def elements (w : World) (v : Value) : Outcome (List Value) :=
  match v with
  | proxy .. => .error .proxyIteration
  | generic t vs => .ok [generic t vs]
  | v =>
    match v.elements? w with
    | some vs => .ok vs
    | Option.none => .error (.wrongType ("'" ++ v.fullTypeName w ++ "' object is not iterable"))

/-- The number of a value's elements. -/
def length (w : World) (v : Value) : Outcome Nat :=
  match v.elements? w with
  | some vs => .ok vs.length
  | Option.none => .error (.wrongType ("object of type '" ++ v.fullTypeName w ++ "' has no len()"))

/-- Whether a value counts as true. The missing value, zero and empty collections do not. -/
def truth (w : World) (v : Value) : Outcome Bool :=
  match v with
  | none => .ok false
  | bool b => .ok b
  | int n => .ok (n != 0)
  | float x _ => .ok (x != 0.0)
  | decimal d _ => .ok (!d.isZero)
  | complex z _ => .ok (z.re != 0.0 || z.im != 0.0)
  | span s => .ok (s.micros != 0)
  | proxy .. => .error .proxyTruth
  | undefined => .ok false
  | v => .ok ((v.elements? w).all (!·.isEmpty))

/-- What keeps a value from being a key of a dictionary, with a bound on the depth. -/
def notKeyTo? (w : World) : Nat → Value → Option Value
  | 0, v => some v
  | depth + 1, v =>
    match v with
    | list _ | dict _ | orderedDict .. | set _ | record .. | proxy .. => some v
    | expr (.param _) _ => Option.none
    | expr .. => some v
    | decimal d _ => if d.signals then some v else Option.none
    | v =>
      match v.tupleView? w with
      | some vs => vs.findSome? (notKeyTo? w depth)
      | Option.none => if (v.recordView? w).isSome then some v else Option.none

/-- Whether a value can be the key of a dictionary. -/
def isKey (w : World) (v : Value) : Bool := (notKeyTo? w depthLimit v).isNone

/-- The fault of using a value that cannot be a key. -/
def notKey (w : World) (v : Value) : Fault :=
  let culprit := (notKeyTo? w depthLimit v).getD v
  .wrongType ("unhashable type: '" ++ culprit.fullTypeName w ++ "'")

/-- The value of a dictionary at a key, if there is one. -/
def entry? (w : World) (es : List (Value × Value)) (key : Value) : Outcome (Option Value) :=
  if key.isKey w then findEntry (same w · key) es else .error (notKey w key)

/-- Puts an entry into a dictionary: an old key keeps its place. -/
def putEntry (w : World) (es : List (Value × Value)) (key value : Value) :
    Outcome (List (Value × Value)) := do
  match ← entry? w es key with
  | Option.none => .ok (es ++ [(key, value)])
  | some _ =>
    es.mapM fun (k, v) => do
      if ← same w k key then .ok (k, value) else .ok (k, v)

/-- The least power of two that a set of so many elements leaves mostly empty: it grows fourfold
when three fifths of it are taken. -/
def setCapacity (count : Nat) : Nat → Nat → Nat
  | 0, capacity => capacity
  | fuel + 1, capacity =>
    if count * 5 < (capacity - 1) * 3 then capacity else setCapacity count fuel (capacity * 4)

/-- The place of a number in a set: a residue. -/
def setPlace (capacity : Nat) (n : Int) : Nat :=
  let modulus := Number.twoTo 61 - 1
  let size : Int := (n.natAbs % modulus : Nat)
  let key := if n < 0 then -size else size
  ((if key == -1 then -2 else key).emod capacity).toNat

/-- Different values in the order in which a set lists them. -/
def setOrder (vs : List Value) : List Value :=
  match vs.mapM fun v => v.asInt?.map fun n => (n, v) with
  | Option.none => vs
  | some numbered =>
    let capacity := setCapacity vs.length vs.length 8
    let placed := numbered.map fun (n, v) => (setPlace capacity n, v)
    (placed.mergeSort fun a b => a.1 ≤ b.1).map (·.2)

/-- The set of these values. -/
def makeSet (w : World) (vs : List Value) : Outcome Value := do
  let distinct ← vs.foldlM (fun found v => do
    if !v.isKey w then .error (notKey w v)
    else if ← anyPasses (same w · v) found then .ok found
    else .ok (found ++ [v])) []
  .ok (set (setOrder distinct))

/-- Whether one text occurs in another. -/
def occursIn (part whole : String) : Bool :=
  part.isEmpty || (whole.splitOn part).length > 1

/-- Whether some element is the same as a value. -/
def anySame (w : World) (v : Value) (vs : List Value) : Outcome Bool := anyPasses (same w · v) vs

/-- Whether a run of bytes occurs in another. -/
def bytesOccur (part : List UInt8) : List UInt8 → Bool
  | [] => part.isEmpty
  | b :: bs => part.isPrefixOf (b :: bs) || bytesOccur part bs

/-- Whether a collection contains a value. -/
def contains (w : World) (container v : Value) : Outcome Bool :=
  match container with
  | str s =>
    match v with
    | str t => .ok (occursIn t s)
    | v =>
      .error (.wrongType
        ("'in <string>' requires string as left operand, not " ++ v.fullTypeName w))
  | bytes bs =>
    match v with
    | bytes cs => .ok (bytesOccur cs bs)
    | v =>
      match v.asInt? with
      | some n =>
        if 0 ≤ n && n < 256 then .ok (bs.any fun b => (b.toNat : Int) == n)
        else .error (.host .wrongValue "byte must be in range(0, 256)")
      | Option.none => .error (.notBytes w v)
  | dict es | orderedDict es _ => do .ok (← entry? w es v).isSome
  | record _ fs => do .ok (← entry? w (entriesOf fs) v).isSome
  | set us =>
    match v with
    | set _ => .ok false
    | v => if v.isKey w then anySame w v us else .error (notKey w v)
  | generic t vs =>
    match v with
    | generic .. => .ok false
    | v => anySame w v [generic t vs]
  | c =>
    match c.elements? w with
    | some vs => anySame w v vs
    | Option.none =>
      .error (.wrongType ("argument of type '" ++ c.fullTypeName w ++ "' is not iterable"))

end Value

end EntityGraph
