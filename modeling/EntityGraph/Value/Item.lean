import EntityGraph.Value.Node

/-!
# Items of values

Sequences hold their elements at indices, and dictionaries their values at keys. Some classes take
types as parameters in brackets. Of a recording proxy, reading an item is recorded.
-/

namespace EntityGraph

namespace Value

/-- The element at an index; negative indices count from the end. -/
def atIndex (vs : List Value) (i : Int) : Outcome Value :=
  let j := if i < 0 then i + vs.length else i
  match if j < 0 then Option.none else vs[j.toNat]? with
  | some v => .ok v
  | Option.none => .error (.host .index "index out of range")

/-- Classes that take types as parameters in brackets. -/
def isGeneric (w : World) : HostType → Bool
  | .declared c => w.classes.kindOf c == .namedTuple
  | .builtin b => [.list, .tuple, .dict, .set, .frozenSet, .orderedDict, .type].contains b
  | _ => false

/-- The fault of an index that is no integer. -/
def notIndex (w : World) (v key : Value) : Fault :=
  let found := key.fullTypeName w
  .wrongType (match v with
    | str _ => "string indices must be integers, not '" ++ found ++ "'"
    | bytes _ => "byte indices must be integers or slices, not " ++ found
    | list _ => "list indices must be integers or slices, not " ++ found
    | _ => "tuple indices must be integers or slices, not " ++ found)

/-- The elements of a value that has them in places. -/
def places? (w : World) (v : Value) : Option (List Value) :=
  match v with
  | set _ => Option.none
  | v => v.elements? w

/-- What a value holds at a key or an index; of a recording proxy, the record of reading it. -/
def readItem (w : World) (v key : Value) : Outcome Value :=
  match v with
  | proxy u _ => do .ok (ofRecorded (← Node.item w u key.recorded))
  | type t =>
    if isGeneric w t then .ok (generic t ((key.tupleView? w).getD [key]))
    else .error (.wrongType ("type '" ++ t.fullName ++ "' is not subscriptable"))
  | v =>
    match v.entriesView?, v.places? w with
    | some (es, _), _ => do
      match ← entry? w es key with
      | some u => .ok u
      | Option.none => .error (.host .missingKey (key.shown w))
    | _, some vs => (key.asInt?).elim (.error (notIndex w v key)) (atIndex vs)
    | _, Option.none =>
      .error (.wrongType ("'" ++ v.fullTypeName w ++ "' object is not subscriptable"))

end Value

end EntityGraph
