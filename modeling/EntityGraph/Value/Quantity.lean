import EntityGraph.Fault
import EntityGraph.Number.Binary
import EntityGraph.Value.Basic

/-!
# Numbers among values

Four kinds of values are numbers: integers with the truth values, doubles, decimal numbers and
complex numbers. Numbers of any two kinds are equal if they are the same number, exactly; all but
the complex ones also have an order. A decimal number that is no number cannot be asked for its
order, and one that signals not even for equality.

For arithmetic, two numbers are first brought to one kind: an integer becomes whatever it meets, and
a double becomes a complex number. Doubles and decimal numbers do not meet.
-/

namespace EntityGraph

namespace Number

/-- Whether an integer and a double are the same number. -/
def intEqFloat (n : Int) (x : Float) : Bool := compareInt n x == some .eq

end Number

/-- A number of one of the four kinds. -/
inductive Quantity where
  | int (n : Int)
  | float (x : Float)
  | decimal (d : DecimalFloat)
  | complex (z : ComplexFloat)

/-- The number that a value is. -/
def Value.quantity? : Value → Option Quantity
  | .float x _ => some (.float x)
  | .decimal d _ => some (.decimal d)
  | .complex z _ => some (.complex z)
  | v => v.asInt?.map .int

namespace DecimalFault

/-- The fault of a computation with decimal numbers. -/
def toFault : DecimalFault → Fault
  | invalid => .host .badDecimal "an invalid operation on decimal numbers"
  | divisionByZero => .host .decimalZeroDivision "division by zero"
  | overflow => .host .decimalOverflow "a decimal number is too large"

end DecimalFault

namespace Quantity

/-- A number as a decimal one; complex numbers only if they have no imaginary part. -/
def toDecimal? : Quantity → Option DecimalFloat
  | int n => some (.ofInt n)
  | float x => some (.ofFloat x)
  | decimal d => some d
  | complex z => if z.im == 0.0 then some (.ofFloat z.re) else none

/-- Whether two decimal numbers are equal. -/
def decimalEqual (x y : DecimalFloat) : Outcome Bool :=
  if x.signals || y.signals then .error DecimalFault.invalid.toFault
  else .ok (x.compare? y == some .eq)

/-- Whether two numbers are the same. -/
def equal : Quantity → Quantity → Outcome Bool
  | int m, int n => .ok (m == n)
  | int n, float x | float x, int n => .ok (Number.intEqFloat n x)
  | float x, float y => .ok (x == y)
  | complex x, complex y => .ok (x.same y)
  | int n, complex z | complex z, int n => .ok (z.im == 0.0 && Number.intEqFloat n z.re)
  | float x, complex z | complex z, float x => .ok (z.im == 0.0 && z.re == x)
  | x, y =>
    match x.toDecimal?, y.toDecimal? with
    | some d, some e => decimalEqual d e
    | _, _ => .ok false

/-- How two numbers compare: nothing for kinds without an order, and no ordering with a double that
is no number. -/
def compare? : Quantity → Quantity → Outcome (Option (Option Ordering))
  | complex _, _ | _, complex _ => .ok none
  | int m, int n => .ok (some (some (compare m n)))
  | int n, float x => .ok (some (Number.compareInt n x))
  | float x, int n => .ok (some ((Number.compareInt n x).map Ordering.swap))
  | float x, float y => .ok (some (Number.compareFloat x y))
  | x, y =>
    match x.toDecimal?, y.toDecimal? with
    | some d, some e =>
      match d.compare? e with
      | some o => .ok (some (some o))
      | none => .error DecimalFault.invalid.toFault
    | _, _ => .ok none

end Quantity

/-- Two numbers of one kind. -/
inductive Numbers where
  | ints (m n : Int)
  | floats (x y : Float)
  | decimals (x y : DecimalFloat)
  | complexes (x y : ComplexFloat)

namespace Value

/-- An integer as a double. -/
def toFloat (n : Int) : Outcome Float :=
  match Number.ofInt n with
  | some x => .ok x
  | Option.none => .error (.host .overflow "int too large to convert to float")

/-- Two values as numbers of one kind, if both are numbers that can meet. -/
def numbers? (a b : Value) : Outcome (Option Numbers) :=
  match a.quantity?, b.quantity? with
  | some (.int m), some (.int n) => .ok (some (.ints m n))
  | some (.float x), some (.float y) => .ok (some (.floats x y))
  | some (.int m), some (.float y) => do .ok (some (.floats (← toFloat m) y))
  | some (.float x), some (.int n) => do .ok (some (.floats x (← toFloat n)))
  | some (.decimal x), some (.decimal y) => .ok (some (.decimals x y))
  | some (.int m), some (.decimal y) => .ok (some (.decimals (.ofInt m) y))
  | some (.decimal x), some (.int n) => .ok (some (.decimals x (.ofInt n)))
  | some (.complex x), some (.complex y) => .ok (some (.complexes x y))
  | some (.float x), some (.complex y) => .ok (some (.complexes ⟨x, 0.0⟩ y))
  | some (.complex x), some (.float y) => .ok (some (.complexes x ⟨y, 0.0⟩))
  | some (.int m), some (.complex y) => do .ok (some (.complexes ⟨← toFloat m, 0.0⟩ y))
  | some (.complex x), some (.int n) => do .ok (some (.complexes x ⟨← toFloat n, 0.0⟩))
  | _, _ => .ok Option.none

/-- The integer part of a number without an imaginary part, towards zero; of a UUID, its number. -/
def wholePart? (v : Value) : Outcome (Option Int) :=
  match v with
  | float x _ =>
    match Number.truncate x with
    | some n => .ok (some n)
    | Option.none =>
      if x.isNaN then .error (.host .wrongValue "cannot convert float NaN to integer")
      else .error (.host .overflow "cannot convert float infinity to integer")
  | decimal d _ =>
    match d with
    | .nan .. => .error (.host .wrongValue "cannot convert NaN to integer")
    | .infinite _ => .error (.host .overflow "cannot convert Infinity to integer")
    | d => .ok d.truncate?
  | uuid u => .ok (some u.value)
  | v => .ok v.asInt?

/-- A number without an imaginary part as a double. -/
def realPart? (v : Value) : Outcome (Option Float) :=
  match v with
  | float x _ => .ok (some x)
  | decimal d _ =>
    if d.signals then .error (.host .wrongValue "cannot convert signaling NaN to float")
    else .ok (some d.toFloat)
  | v =>
    match v.asInt? with
    | some n => do .ok (some (← toFloat n))
    | Option.none => .ok Option.none

/-- The value of a computation with decimal numbers. -/
def ofDecimal (x : Except DecimalFault DecimalFloat) : Outcome Value :=
  (x.map ofDecimalFloat).mapError DecimalFault.toFault

end Value

end EntityGraph
