import EntityGraph.Value.Arithmetic

/-!
# Operators on values and on proxies

Applying an operator to plain values computes. If a recording proxy takes part, the operator is
recorded instead: a proxy on the left records the operation as it stands; a proxy on the right of a
plain value records a comparison from its own side, so that `2 < p` becomes `p > 2`, and every other
operation in the order it was written in.

Two operations do not reach a proxy on the right: filling in a text or bytes, which take any value,
and the equality of an expression, which is simply false.
-/

namespace EntityGraph

namespace Value

/-- Applies an operator to two values of which none is a proxy. -/
def compute (w : World) (op : ScriptOp) (a b : Value) : Outcome Value :=
  match op with
  | .eq => do .ok (bool (← equal w a b))
  | .ne => do .ok (bool (!(← equal w a b)))
  | .lt => do .ok (bool (← related w .lt a b))
  | .le => do .ok (bool (← related w .le a b))
  | .gt => do .ok (bool (← related w .gt a b))
  | .ge => do .ok (bool (← related w .ge a b))
  | .and => bitAnd w a b
  | .or => bitOr w a b
  | .add => add w a b
  | .sub => sub w a b
  | .mul => mul w a b
  | .div => div w a b
  | .mod => mod w a b

/-- What a plain value does with an operator by itself, before a proxy on the right is asked. -/
def answersFirst (w : World) (op : ScriptOp) (a b : Value) : Option (Outcome Value) :=
  match op, a with
  | .mod, str s => some (fill w s b)
  | .mod, bytes bs => some (fillBytes w bs b)
  | .eq, expr .. => some (.ok (bool false))
  | .ne, expr .. => some (.ok (bool true))
  | _, _ => Option.none

/-- The record of an operator on two operands. -/
def recordBinary (w : World) (op : BinaryOp) (left right : Value) : Outcome Value := do
  .ok (ofRecorded (← Node.binaryOf w op left right))

/-- The record of an operator on one operand. -/
def recordUnary (w : World) (op : UnaryOp) (inner : Value) : Outcome Value := do
  .ok (ofRecorded (.unary op (← inner.treeAt w .inner)))

/-- Applies an operator to two values, or records it. -/
def operate (w : World) (op : ScriptOp) (a b : Value) : Outcome Value :=
  match a, b with
  | proxy u _, b => recordBinary w op.recorded u b.recorded
  | a, proxy u m =>
    match answersFirst w op a (proxy u m) with
    | some answer => answer
    | Option.none =>
      match op.exchanged? with
      | some other => recordBinary w other.recorded u a.recorded
      | Option.none => recordBinary w op.recorded a.recorded u
  | a, b => compute w op a b

/-- A value with the other sign, or the record of it. -/
def negate (w : World) : Value → Outcome Value
  | proxy u _ => recordUnary w .neg u
  | v => neg w v

/-- The complement of a value, or the record of a negation. -/
def invert (w : World) : Value → Outcome Value
  | proxy u _ => recordUnary w .not u
  | v => complement w v

end Value

end EntityGraph
