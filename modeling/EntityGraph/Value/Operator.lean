import EntityGraph.Value.Operate

/-!
# The operators of expressions

Comparisons treat the missing value as a query language does: it is equal to itself and different
from everything else, it is neither less nor greater than anything, it contains nothing and nothing
contains it; yet it is at most and at least itself, and it does not differ from itself. Arithmetic
with it is missing. The boolean operators take truth values of their operands, of which the missing
value is false.
-/

namespace EntityGraph

namespace BinaryOp

/-- The result of an operator on two values of which none is missing. -/
def applyPresent (w : World) (op : BinaryOp) (a b : Value) : Outcome Value :=
  match op with
  | eq => Value.operate w .eq a b
  | ne => Value.operate w .ne a b
  | gt => Value.operate w .gt a b
  | ge => Value.operate w .ge a b
  | lt => Value.operate w .lt a b
  | le => Value.operate w .le a b
  | contains => do .ok (.bool (← Value.contains w a b))
  | inCollection => do .ok (.bool (← Value.contains w b a))
  | add => Value.operate w .add a b
  | sub => Value.operate w .sub a b
  | mul => Value.operate w .mul a b
  | div => Value.operate w .div a b
  | mod => Value.operate w .mod a b
  | and => do
    if ← Value.truth w a then .ok (.bool (← Value.truth w b)) else .ok (.bool false)
  | or => do
    if ← Value.truth w a then .ok (.bool true) else .ok (.bool (← Value.truth w b))

/-- Whether an operator holds between the missing value and itself. -/
def holdsOnMissing : BinaryOp → Bool
  | eq | ge | le => true
  | _ => false

/-- The result of an operator that is written so, if one of its operands is missing. -/
def applyMissing (op : BinaryOp) (a b : Value) : Value :=
  if op.isArithmetic then .none
  else if a.isNone && b.isNone then .bool op.holdsOnMissing
  else .bool (op == ne)

/-- The result of an operator on two values. -/
def apply (w : World) (op : BinaryOp) (a b : Value) : Outcome Value :=
  match op with
  | and => applyPresent w and a b
  | or => applyPresent w or a b
  | op => if a.isNone || b.isNone then .ok (op.applyMissing a b) else op.applyPresent w a b

/-- The result of the operator that is written so. One that does not exist is only noticed where
both operands are present. -/
def applySymbol (w : World) (symbol : String) (a b : Value) : Outcome Value :=
  match ofSymbol? symbol with
  | some op => op.apply w a b
  | none =>
    if a.isNone || b.isNone then .ok (.bool false) else .error (.unknownOperator symbol)

end BinaryOp

namespace UnaryOp

/-- The result of an operator on a value. -/
def apply (w : World) (op : UnaryOp) (v : Value) : Outcome Value :=
  match op with
  | not => do .ok (.bool (!(← Value.truth w v)))
  | neg => if v.isNone then .ok .none else Value.negate w v

/-- The result of the operator that is written so. -/
def applySymbol (w : World) (symbol : String) (v : Value) : Outcome Value :=
  match ofSymbol? symbol with
  | some op => op.apply w v
  | none => .error (.unknownOperator symbol)

end UnaryOp

end EntityGraph
