/-!
# Floating-point numbers, exactly

A finite double is a sign, a natural number m and an exponent q, and stands for ±m · 2^q. Whatever
must be exact about it is done on that triple with natural numbers: rounding a quotient to the
nearest double, comparing with an integer of any size, and taking a remainder.

A double has the base two and a text the base ten, so exact conversions between them multiply by
powers of the two bases. The powers are natural numbers; a negative exponent is a power in the
denominator of a fraction.

Rounding goes to the nearest double and a tie to the even neighbour. A quotient that rounds beyond
the largest double has no result.
-/

namespace EntityGraph.Number

/-- A power of two. -/
def twoTo (n : Nat) : Nat := Nat.pow 2 n

/-- A power of ten. -/
def tenTo (n : Nat) : Nat := Nat.pow 10 n

/-- A finite double as ±m · 2^q. -/
structure Binary where
  negative : Bool
  mantissa : Nat
  exponent : Int

/-- The sign of a double, also of a zero. -/
def isNegative (x : Float) : Bool :=
  x.toBits.toNat / twoTo 63 == 1

/-- A finite double taken apart; infinities and the undefined number have no such form. -/
def Binary.ofFloat? (x : Float) : Option Binary :=
  let bits := x.toBits.toNat
  let fraction : Nat := bits % twoTo 52
  let biased : Nat := bits / twoTo 52 % twoTo 11
  if biased == 2047 then none
  else if biased == 0 then some ⟨isNegative x, fraction, -1074⟩
  else some ⟨isNegative x, fraction + twoTo 52, (biased : Int) - 1075⟩

/-- A natural number shifted by a power of two that may be negative, as a fraction. -/
def scale (n : Nat) (q : Int) : Nat × Nat :=
  if 0 ≤ q then (n * twoTo q.toNat, 1) else (n, twoTo (-q).toNat)

/-- The quotient of two naturals rounded to the nearest, a tie to the even neighbour. -/
def roundQuotient (num den : Nat) : Nat :=
  let m := num / den
  let twice := 2 * (num % den)
  if twice > den || (twice == den && m % 2 == 1) then m + 1 else m

/-- The exponent of the leading binary digit of a positive fraction. -/
def leadingExponent (num den : Nat) : Int :=
  let e : Int := (num.log2 : Int) - (den.log2 : Int)
  let (n, d) := if 0 ≤ e then (num, den * twoTo e.toNat) else (num * twoTo (-e).toNat, den)
  if n < d then e - 1 else e

/-- Puts a rounded mantissa and its exponent together, unless the result is too large. -/
def assemble (negative : Bool) (m : Nat) (q : Int) : Option Float :=
  let (m, q) := if m == twoTo 53 then (twoTo 52, q + 1) else (m, q)
  let sign := if negative then twoTo 63 else 0
  if m < twoTo 52 then some (Float.ofBits (UInt64.ofNat (sign + m)))
  else if q > 971 then none
  else some (Float.ofBits (UInt64.ofNat (sign + (q + 1075).toNat * twoTo 52 + (m - twoTo 52))))

/-- The double nearest to a fraction with a positive denominator; none if it is too large. -/
def ofRatio (negative : Bool) (num den : Nat) : Option Float :=
  if num == 0 then some (if negative then -0.0 else 0.0)
  else
    let q := max (leadingExponent num den - 52) (-1074)
    let (n, d) := if 0 ≤ q then (num, den * twoTo q.toNat) else (num * twoTo (-q).toNat, den)
    assemble negative (roundQuotient n d) q

/-- The double nearest to an integer; none if it is too large. -/
def ofInt (n : Int) : Option Float :=
  ofRatio (n < 0) n.natAbs 1

/-- The double nearest to a quotient of integers, the divisor not zero; none if it is too large. -/
def divide (a b : Int) : Option Float :=
  ofRatio ((a < 0) != (b < 0)) a.natAbs b.natAbs

/-- How an integer compares with a double; none for the undefined number. -/
def compareInt (n : Int) (x : Float) : Option Ordering :=
  match Binary.ofFloat? x with
  | some b =>
    let (num, den) := scale b.mantissa b.exponent
    let value : Int := if b.negative then -(num : Int) else num
    some (compare (n * den) value)
  | none => if x.isNaN then none else some (if isNegative x then .gt else .lt)

/-- How two doubles compare; none if one is the undefined number. -/
def compareFloat (x y : Float) : Option Ordering :=
  if x < y then some .lt else if x == y then some .eq else if x > y then some .gt else none

/-- The remainder of |x| by |y|, exactly, for finite x and finite non-zero y. -/
def remainder (x y : Binary) : Float :=
  let q := min x.exponent y.exponent
  let a := x.mantissa * twoTo (x.exponent - q).toNat
  let b := y.mantissa * twoTo (y.exponent - q).toNat
  let (num, den) := scale (a % b) q
  (ofRatio false num den).getD 0.0

/-- The modulus of two doubles, the divisor not zero: it has the divisor's sign, also as a zero. -/
def modulus (x y : Float) : Float :=
  let signed := fun (negative : Bool) (r : Float) => if negative then -r else r
  match Binary.ofFloat? x, Binary.ofFloat? y with
  | some a, some b =>
    let r := remainder a b
    if r == 0.0 then signed b.negative 0.0
    else
      let r := signed a.negative r
      if a.negative != b.negative then r + y else r
  | some _, none =>
    if y.isNaN then y
    else if x == 0.0 then signed (isNegative y) 0.0
    else if isNegative x != isNegative y then y else x
  | none, _ => 0.0 / 0.0

/-- The nearest single-precision number, as a double; beyond the range it is an infinity. -/
def toSingle (x : Float) : Float :=
  x.toFloat32.toFloat

/-- The integer part of a finite double, towards zero. -/
def truncate (x : Float) : Option Int :=
  (Binary.ofFloat? x).map fun b =>
    let (num, den) := scale b.mantissa b.exponent
    if b.negative then -((num / den : Nat) : Int) else (num / den : Nat)

end EntityGraph.Number
