import EntityGraph.Value.Quantity
import EntityGraph.World

/-!
# Equality of values

Numbers are equal by their exact values, whatever their classes; lists, and tuples, are equal
element by element, dictionaries in any order unless the order of both matters, and sets in any
order. Timestamps with a zone are equal if they are the same moment. Instances of a record class are
equal if they are of the same class and their fields are, and asking is a fault if one of these has
no value. Everything else is equal only to itself. Elements are compared by identity before
equality, so a collection that holds an undefined number can be equal to itself.

A recording proxy has no truth value, so a collection that holds one cannot be compared with another
unless the proxies at the same places are the same object.

Expressions are equal if they are built alike. Parameters are equal only to themselves.
-/

namespace EntityGraph

namespace Value

/-- The elements of a tuple or of a named tuple. -/
def tupleView? (w : World) : Value → Option (List Value)
  | tuple vs => some vs
  | object r =>
    if w.objectKind r == .namedTuple then some ((w.objectFields r).map (·.2)) else Option.none
  | _ => Option.none

/-- The class and the fields of an instance of a record class; a field may have no value. -/
def recordView? (w : World) : Value → Option (String × List (String × Option Value))
  | object r =>
    if w.objectKind r == .record then some (w.className r, w.objectMembers r) else Option.none
  | _ => Option.none

/-- A record as a dictionary. -/
def entriesOf (fs : List (String × Value)) : List (Value × Value) :=
  fs.map fun (n, v) => (str n, v)

/-- The entries of a dictionary or a record, and whether their order matters. -/
def entriesView? : Value → Option (List (Value × Value) × Bool)
  | dict es => some (es, false)
  | orderedDict es _ => some (es, true)
  | record _ fs => some (entriesOf fs, true)
  | _ => Option.none

/-- Whether two values are the same object, as far as this can make a difference. -/
def identical : Value → Value → Bool
  | float x m, float y n => x.isNaN && y.isNaN && m == n && m != 0
  | decimal _ m, decimal _ n | complex _ m, complex _ n | orderedDict _ m, orderedDict _ n
  | proxy _ m, proxy _ n => m == n && m != 0
  | foreign s m, foreign t n => s == t && m == n && (m != 0 || s != .builtin .object)
  | object a, object b => a == b
  | closure m, closure n => m == n
  | function i .., function j .. => i == j
  | expr _ p, expr _ q => p == q && p.root != 0
  | _, _ => false

/-- Whether two values are the same object because the host has only one of its kind: classes and
the parts of a schema, small integers, texts and bytes of one element at most, and the empty
tuple. -/
def sameShared : Value → Value → Bool
  | none, none | schema, schema | tuple [], tuple [] => true
  | bool b, bool c => b == c
  | int m, int n => m == n && -5 ≤ m && m ≤ 256
  | str s, str t => s == t && s.length ≤ 1 && s.toList.all (·.toNat < 256)
  | bytes x, bytes y => x == y && x.length ≤ 1
  | type t, type u => t == u
  | typeRef t, typeRef u => t == u
  | fieldRef t i, fieldRef u j => t == u && i == j
  | primitive p, primitive q => p == q
  | _, _ => false

/-- The values of the fields of an instance, all of which must have one. -/
def fieldValues (className : String) (fs : List (String × Option Value)) : Outcome (List Value) :=
  fs.mapM fun (n, v) => v.elim (.error (Fault.unset className n)) .ok

/-- Compares elements one by one with a test that may fail; the lengths must agree. -/
def allEqual (eq : Value → Value → Outcome Bool) : List Value → List Value → Outcome Bool
  | [], [] => .ok true
  | a :: as, b :: bs => do
    if ← eq a b then allEqual eq as bs else .ok false
  | _, _ => .ok false

/-- The value of the first entry whose key passes a test that may fail. -/
def findEntry (test : Value → Outcome Bool) : List (Value × Value) → Outcome (Option Value)
  | [] => .ok Option.none
  | (k, v) :: es => do
    if ← test k then .ok (some v) else findEntry test es

/-- Whether every entry of one dictionary is in the other. -/
def entriesWithin (eq : Value → Value → Outcome Bool) :
    List (Value × Value) → List (Value × Value) → Outcome Bool
  | [], _ => .ok true
  | (k, v) :: es, fs => do
    match ← findEntry (eq k) fs with
    | some u => if ← eq u v then entriesWithin eq es fs else .ok false
    | Option.none => .ok false

/-- Whether two dictionaries have equal entries, in the same order if the order of both matters. -/
def entriesEqual (eq : Value → Value → Outcome Bool) (a b : List (Value × Value) × Bool) :
    Outcome Bool := do
  let (es, inOrder) := a
  let (fs, alsoInOrder) := b
  if es.length != fs.length then .ok false
  else if !(← entriesWithin eq es fs) then .ok false
  else if inOrder && alsoInOrder then allEqual eq (es.map (·.1)) (fs.map (·.1))
  else .ok true

/-- Whether some element passes a test that may fail. -/
def anyPasses (test : Value → Outcome Bool) : List Value → Outcome Bool
  | [] => .ok false
  | v :: vs => do
    if ← test v then .ok true else anyPasses test vs

/-- Whether every value of one list is among those of another. -/
def allAmong (eq : Value → Value → Outcome Bool) : List Value → List Value → Outcome Bool
  | [], _ => .ok true
  | v :: vs, us => do
    if ← anyPasses (eq v) us then allAmong eq vs us else .ok false

/-- Instances of one record class are equal if their fields are. -/
def recordsEqual (eq : Value → Value → Outcome Bool) :
    Option (String × List (String × Option Value)) →
      Option (String × List (String × Option Value)) → Outcome Bool
  | some (c, xs), some (d, ys) => do
    if c == d then allEqual eq (← fieldValues c xs) (← fieldValues d ys) else .ok false
  | _, _ => .ok false

/-- Whether two expressions hold the same literals and names at the same places, where `eq`
compares literals by equality and `same` by identity first. Inside a group of parts identity comes
first. -/
def exprEqual (eq same : Value → Value → Outcome Bool) : Nat → Bool → Expr Value → Expr Value →
    Outcome Bool
  | 0, _, _, _ => .error (.host .tooDeep "maximum recursion depth exceeded")
  | depth + 1, shared, a, b =>
    let literal := if shared then same else eq
    let go := exprEqual eq same depth
    let group := fun (as bs : List (Expr Value)) =>
      if as.length == bs.length then
        (as.zip bs).foldlM (fun ok (x, y) => if ok then go true x y else .ok false) true
      else .ok false
    match a, b with
    | .param p, .param q => .ok (p == q)
    | .lit u, .lit v => literal u v
    | .lit u, .null => literal u none
    | .null, .lit v => literal none v
    | .null, .null => .ok true
    | .member t m, .member u n => do
      if ← go shared t u then .ok (m == n) else .ok false
    | .item t k, .item u l => do
      if ← go shared t u then go shared k l else .ok false
    | .method t m as, .method u n bs => do
      if ← go shared t u then (if m == n then group as bs else .ok false) else .ok false
    | .func f as, .func g bs => do
      if ← go shared f g then group as bs else .ok false
    | .unary o x, .unary p y => if o == p then go shared x y else .ok false
    | .binary o l r, .binary p l' r' =>
      if o == p then do
        if ← go shared l l' then go shared r r' else .ok false
      else .ok false
    | .cond p y n, .cond p' y' n' => do
      if ← go shared p p' then (if ← go shared y y' then go shared n n' else .ok false)
      else .ok false
    | .lambda ps x, .lambda qs y => if ps == qs then go shared x y else .ok false
    | .invoke f as, .invoke g bs => do
      if ← go shared f g then group as bs else .ok false
    | .seq o s as, .seq p t bs =>
      if o == p then do
        if ← go shared s t then group as bs else .ok false
      else .ok false
    | .record t fs, .record u gs => do
      if ← literal t u then
        if ← allEqual same (fs.map (·.1)) (gs.map (·.1)) then
          group (fs.map (·.2)) (gs.map (·.2))
        else .ok false
      else .ok false
    | _, _ => .ok false

/-- How deep values may be nested before they are too deep to compare. -/
def depthLimit : Nat := 900

/-- Equality of values, with a bound on the depth. -/
def equalTo (w : World) : Nat → Value → Value → Outcome Bool
  | 0, _, _ => .error (.host .tooDeep "maximum recursion depth exceeded in comparison")
  | depth + 1, a, b =>
    let same := fun (x y : Value) => if identical x y then .ok true else equalTo w depth x y
    match a, b with
    | proxy .., _ => .error .proxyTruth
    | expr .., proxy .. => .ok false
    | _, proxy .. => .error .proxyTruth
    | none, none => .ok true
    | str s, str t => .ok (s == t)
    | list xs, list ys => if xs.length == ys.length then allEqual same xs ys else .ok false
    | set xs, set ys => if xs.length == ys.length then allAmong same xs ys else .ok false
    | bytes x, bytes y => .ok (x == y)
    | date x, date y => .ok (x == y)
    | timestamp x, timestamp y => .ok (x.comparable y && x.compare y == .eq)
    | span x, span y => .ok (x == y)
    | zone x, zone y => .ok (x == y)
    | uuid x, uuid y => .ok (x == y)
    | type x, type y => .ok (x == y)
    | generic s xs, generic t ys =>
      if s == t && xs.length == ys.length then allEqual same xs ys else .ok false
    | primitive x, primitive y => .ok (x == y)
    | method r m, method s n =>
      .ok (m == n && (identical r s || sameShared r s))
    | expr x _, expr y _ => exprEqual (equalTo w depth) same depth false x y
    | typeRef x, typeRef y => .ok (x == y)
    | fieldRef t i, fieldRef u j => .ok (t == u && i == j)
    | schema, schema => .ok true
    | undefined, undefined => .ok true
    | x, y =>
      match x.quantity?, y.quantity? with
      | some m, some n => m.equal n
      | _, _ =>
        match x.entriesView?, y.entriesView? with
        | some es, some fs => entriesEqual same es fs
        | _, _ =>
          match x.tupleView? w, y.tupleView? w with
          | some xs, some ys => if xs.length == ys.length then allEqual same xs ys else .ok false
          | _, _ =>
            match x.recordView? w, y.recordView? w with
            | Option.none, Option.none => .ok (identical x y)
            | r, s => recordsEqual same r s

/-- Equality of values. -/
def equal (w : World) (a b : Value) : Outcome Bool := equalTo w depthLimit a b

/-- Identity or equality of values, as elements of collections are compared. -/
def same (w : World) (a b : Value) : Outcome Bool :=
  if identical a b then .ok true else equal w a b

end Value

namespace Expr

/-- Whether two expressions are built alike. -/
def equal (w : World) (a b : Expr Value) : Outcome Bool := Value.equal w (.ofTree a) (.ofTree b)

end Expr

namespace Scope

/-- Whether two scopes bind the same parameters to the same values, from the innermost outwards. -/
def equal (w : World) : Scope Value → Scope Value → Outcome Bool
  | empty, empty => .ok true
  | bind p v s, bind q u t =>
    if p != q then .ok false
    else do
      if !(← Value.same w v u) then .ok false
      else if s.depth != t.depth then .ok false
      else s.equal w t
  | _, _ => .ok false

end Scope

end EntityGraph
