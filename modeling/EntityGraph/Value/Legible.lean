import EntityGraph.Fault
import EntityGraph.Number.Decimal
import EntityGraph.Value.Shown

/-!
# Values that cannot be shown

Showing a value shows everything inside it. Two things cannot be shown: an integer with too many
digits, and an instance of a record class one of whose fields has no value. A text of a value that
holds one of them is the fault of the first of them.
-/

namespace EntityGraph.Value

section

variable (object : Ref → Option Fault)

/-- The fault of writing an integer. -/
def digitsFault? (n : Int) : Option Fault :=
  if n.natAbs < Number.writtenBound then Option.none
  else some (.host .wrongValue "Exceeds the limit (4300 digits) for integer string conversion")

mutual

/-- The fault of showing a value, if it cannot be shown; `object` tells for objects. -/
def illegibleWith : Value → Option Fault
  | int n => digitsFault? n
  | list vs | tuple vs | set vs | generic _ vs => illegibleList vs
  | dict es | orderedDict es _ => illegibleEntries es
  | .object r => object r
  | record _ fs => illegibleFields fs
  | supplied v | proxy v _ => illegibleWith v
  | expr e _ => illegibleExpr e
  | _ => Option.none

/-- The first fault of showing several values. -/
def illegibleList : List Value → Option Fault
  | [] => Option.none
  | v :: vs => (illegibleWith v).or (illegibleList vs)

/-- The first fault of showing the entries of a dictionary. -/
def illegibleEntries : List (Value × Value) → Option Fault
  | [] => Option.none
  | (k, v) :: es => (illegibleWith k).or ((illegibleWith v).or (illegibleEntries es))

/-- The first fault of showing fields. -/
def illegibleFields : List (String × Value) → Option Fault
  | [] => Option.none
  | (_, v) :: fs => (illegibleWith v).or (illegibleFields fs)

/-- The fault of showing an expression. -/
def illegibleExpr : Expr Value → Option Fault
  | .param _ | .null => Option.none
  | .lit v => illegibleWith v
  | .member t _ => illegibleExpr t
  | .item t k => (illegibleExpr t).or (illegibleExpr k)
  | .method t _ as | .func t as | .invoke t as | .seq _ t as =>
    (illegibleExpr t).or (illegibleExprs as)
  | .unary _ e | .lambda _ e => illegibleExpr e
  | .binary _ l r => (illegibleExpr l).or (illegibleExpr r)
  | .cond p y n => (illegibleExpr p).or ((illegibleExpr y).or (illegibleExpr n))
  | .record t fs => (illegibleWith t).or (illegibleMembers fs)

/-- The first fault of showing several expressions. -/
def illegibleExprs : List (Expr Value) → Option Fault
  | [] => Option.none
  | e :: es => (illegibleExpr e).or (illegibleExprs es)

/-- The first fault of showing the members of a record construction. -/
def illegibleMembers : List (Value × Expr Value) → Option Fault
  | [] => Option.none
  | (n, e) :: fs => (illegibleWith n).or ((illegibleExpr e).or (illegibleMembers fs))

end

end

/-- The fault of showing an object. An object inside itself is not shown again. -/
def illegibleObject? (w : World) : Nat → List Ref → Ref → Option Fault
  | 0, _, _ => Option.none
  | depth + 1, around, r =>
    if around.contains r then Option.none
    else
      match w.objectKind r with
      | .record | .namedTuple =>
        (w.objectMembers r).findSome? fun (m, v) =>
          match v with
          | some v => v.illegibleWith (illegibleObject? w depth (r :: around))
          | Option.none => some (Fault.unset (w.className r) m)
      | _ => Option.none

/-- The fault of showing a value, if it cannot be shown. -/
def illegible? (w : World) (v : Value) : Option Fault :=
  v.illegibleWith (illegibleObject? w (w.objects.length + w.memory.length + 1) [])

/-- A value as messages show it, or the fault of showing it. -/
def tellShown (w : World) (v : Value) : Outcome String :=
  (v.illegible? w).elim (.ok (v.shown w)) .error

/-- A value as a message shows it plainly, or the fault of showing it. -/
def tellPlain (w : World) (v : Value) : Outcome String :=
  (v.illegible? w).elim (.ok (v.plain w)) .error

end EntityGraph.Value
