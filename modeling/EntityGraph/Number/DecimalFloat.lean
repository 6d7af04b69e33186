import EntityGraph.Number.Decimal

/-!
# Decimal floating-point numbers

A decimal number is a sign, a coefficient and a power of ten, or an infinity, or no number. The
exponent belongs to what is written but not to the value: 1.50 and 1.5 are equal. What is no number
has a sign too, and digits that tell where it came from; one that signals may not take part in
anything.

Arithmetic is exact and then rounded to 28 digits, a tie to the even digit. The exponents are
bounded: a number too large is a fault, and one too small loses digits or becomes zero.
-/

namespace EntityGraph

/-- A decimal floating-point number. -/
inductive DecimalFloat where
  | finite (negative : Bool) (coefficient : Nat) (exponent : Int)
  | infinite (negative : Bool)
  | nan (negative signals : Bool) (payload : Nat)
  deriving DecidableEq, Repr, Inhabited

/-- Why a computation with decimal numbers has no result. -/
inductive DecimalFault where
  | invalid | divisionByZero | overflow
  deriving DecidableEq, Repr, Inhabited

/-- What a number has to fit into: so many digits, the leading one of which has an exponent between
a limit and its negative. -/
structure DecimalRange where
  precision : Nat
  limit : Int

namespace DecimalRange

/-- The range of the results of arithmetic. -/
def arithmetic : DecimalRange := ⟨28, 999999⟩

/-- The range of the numbers that can be written. -/
def written : DecimalRange := ⟨999999999999999999, 999999999999999999⟩

/-- The least exponent of a last digit. -/
def least (r : DecimalRange) : Int := 1 - r.limit - r.precision

end DecimalRange

namespace DecimalFloat

/-- How many digits arithmetic keeps. -/
def precision : Nat := DecimalRange.arithmetic.precision

/-- The number of digits of a coefficient. -/
def width (n : Nat) : Nat := (Nat.toDigits 10 n).length

/-- The exponent of the leading digit. -/
def leading (coefficient : Nat) (exponent : Int) : Int := exponent + width coefficient - 1

/-- Whether a number is in a range as it is written. -/
def isWithin (r : DecimalRange) : DecimalFloat → Bool
  | finite _ c e =>
    r.least ≤ e && (if c == 0 then e else leading c e) ≤ r.limit && width c ≤ r.precision
  | infinite _ => true
  | nan _ _ payload => width payload ≤ r.precision

/-- An integer as a decimal number. -/
def ofInt (n : Int) : DecimalFloat := finite (n < 0) n.natAbs 0

/-- The exact decimal form of a double. -/
def ofFloat (x : Float) : DecimalFloat :=
  match Number.Binary.ofFloat? x with
  | some b =>
    if b.mantissa == 0 then finite b.negative 0 0
    else
      let isOdd := fun (k : Nat) => b.mantissa % Number.twoTo (k + 1) != 0
      let twos := ((List.range 1100).find? isOdd).getD 0
      let m := b.mantissa / Number.twoTo twos
      let q := b.exponent + twos
      if 0 ≤ q then finite b.negative (m * Number.twoTo q.toNat) 0
      else finite b.negative (m * Nat.pow 5 (-q).toNat) q
  | none => if x.isNaN then nan false false 0 else infinite (Number.isNegative x)

/-- A number that was computed exactly, as arithmetic gives it. -/
def rounded (negative : Bool) (c : Nat) (e : Int) : Except DecimalFault DecimalFloat :=
  let range := DecimalRange.arithmetic
  if c == 0 then .ok (finite negative 0 (max range.least (min range.limit e)))
  else
    let low := max (e + width c - range.precision) range.least
    let (c, e) :=
      if low ≤ e then (c, e)
      else
        let dropped := (low - e).toNat
        let kept := if width c < dropped then 0 else Number.roundQuotient c (Number.tenTo dropped)
        if width kept > range.precision then (kept / 10, low + 1) else (kept, low)
    if c != 0 && range.limit < leading c e then .error .overflow else .ok (finite negative c e)

/-- A coefficient with a sign. -/
def signed (negative : Bool) (n : Nat) : Int := if negative then -(n : Int) else n

/-- What no number gives in arithmetic. -/
def quiet (negative signals : Bool) (payload : Nat) : Except DecimalFault DecimalFloat :=
  if signals then .error .invalid
  else .ok (nan negative false (payload % Number.tenTo precision))

/-- The result of arithmetic if an operand is no number. -/
def undefined? : DecimalFloat → DecimalFloat → Option (Except DecimalFault DecimalFloat)
  | nan _ true _, _ | _, nan _ true _ => some (.error .invalid)
  | nan s signals payload, _ | _, nan s signals payload => some (quiet s signals payload)
  | _, _ => none

/-- Two coefficients over one exponent. Far below the digits that are kept, only the presence of the
smaller number counts. -/
def align (a : Nat) (d : Int) (b : Nat) (e : Int) : Nat × Nat × Int :=
  let shared := fun (a : Nat) (d : Int) (b : Nat) (e : Int) =>
    let low := min d e
    (a * Number.tenTo (d - low).toNat, b * Number.tenTo (e - low).toNat, low)
  if (d - e).natAbs < 100 then shared a d b e
  else if leading a d < leading b e then
    let low := e + min (-1) ((width b : Int) - precision - 2)
    if leading a d < low then shared 1 low b e else shared a d b e
  else
    let low := d + min (-1) ((width a : Int) - precision - 2)
    if leading b e < low then shared a d 1 low else shared a d b e

/-- A number to which a zero with this exponent is added. -/
def addZero (negative : Bool) (c : Nat) (e zero : Int) : Except DecimalFault DecimalFloat :=
  let low := max (min e zero) (e - precision - 1)
  rounded negative (c * Number.tenTo (e - low).toNat) low

/-- The sum of two finite numbers. -/
def addFinite (s : Bool) (a : Nat) (d : Int) (t : Bool) (b : Nat) (e : Int) :
    Except DecimalFault DecimalFloat :=
  if a == 0 && b == 0 then rounded (s && t) 0 (min d e)
  else if a == 0 then addZero t b e d
  else if b == 0 then addZero s a d e
  else
    let (x, y, low) := align a d b e
    let sum := signed s x + signed t y
    rounded (sum < 0) sum.natAbs low

/-- The sum of two numbers. -/
def add (x y : DecimalFloat) : Except DecimalFault DecimalFloat :=
  (undefined? x y).getD <| match x, y with
    | infinite s, infinite t => if s == t then .ok (infinite s) else .error .invalid
    | infinite s, _ | _, infinite s => .ok (infinite s)
    | finite s a d, finite t b e => addFinite s a d t b e
    | x, _ => .ok x

/-- A number with the other sign; a zero has none. -/
def neg : DecimalFloat → Except DecimalFault DecimalFloat
  | finite s c e => rounded (!s && c != 0) c e
  | infinite s => .ok (infinite !s)
  | nan s signals payload => quiet s signals payload

/-- The size of a number. -/
def abs : DecimalFloat → Except DecimalFault DecimalFloat
  | finite _ c e => rounded false c e
  | infinite _ => .ok (infinite false)
  | nan s signals payload => quiet s signals payload

/-- The difference of two numbers. -/
def sub (x y : DecimalFloat) : Except DecimalFault DecimalFloat :=
  match y with
  | finite t b e => x.add (finite (!t) b e)
  | infinite t => x.add (infinite !t)
  | y => x.add y

/-- Whether a number is zero. -/
def isZero : DecimalFloat → Bool
  | finite _ c _ => c == 0
  | _ => false

/-- Whether a value is no number. -/
def isNaN : DecimalFloat → Bool
  | nan .. => true
  | _ => false

/-- Whether a value signals that it is no number. -/
def signals : DecimalFloat → Bool
  | nan _ signals _ => signals
  | _ => false

/-- The product of two numbers. -/
def mul (x y : DecimalFloat) : Except DecimalFault DecimalFloat :=
  (undefined? x y).getD <| match x, y with
    | infinite s, infinite t => .ok (infinite (s != t))
    | infinite s, finite t c _ | finite t c _, infinite s =>
      if c == 0 then .error .invalid else .ok (infinite (s != t))
    | finite s a d, finite t b e => rounded (s != t) (a * b) (d + e)
    | x, _ => .ok x

/-- A coefficient without the zeros at its end, as long as the exponent is below an ideal one. -/
def strip (ideal : Int) : Nat → Nat → Int → Nat × Int
  | 0, c, e => (c, e)
  | fuel + 1, c, e => if e < ideal && c % 10 == 0 then strip ideal fuel (c / 10) (e + 1) else (c, e)

/-- The quotient of two finite numbers. -/
def divFinite (s : Bool) (a : Nat) (d : Int) (t : Bool) (b : Nat) (e : Int) :
    Except DecimalFault DecimalFloat :=
  if b == 0 then .error (if a == 0 then .invalid else .divisionByZero)
  else if a == 0 then rounded (s != t) 0 (d - e)
  else
    let shift := (width b : Int) - width a + precision + 1
    let num := a * Number.tenTo shift.toNat
    let den := b * Number.tenTo (-shift).toNat
    let c := num / den
    if num % den == 0 then
      let (c, e) := strip (d - e) (precision + 2) c (d - e - shift)
      rounded (s != t) c e
    else rounded (s != t) (if c % 5 == 0 then c + 1 else c) (d - e - shift)

/-- The quotient of two numbers. -/
def div (x y : DecimalFloat) : Except DecimalFault DecimalFloat :=
  (undefined? x y).getD <| match x, y with
    | infinite _, infinite _ => .error .invalid
    | infinite s, finite t .. => .ok (infinite (s != t))
    | finite s .., infinite t => .ok (finite (s != t) 0 DecimalRange.arithmetic.least)
    | finite s a d, finite t b e => divFinite s a d t b e
    | x, _ => .ok x

/-- The remainder of two finite numbers, the second of which is not zero, with the sign of the first
one. -/
def modFinite (s : Bool) (a : Nat) (d : Int) (b : Nat) (e : Int) :
    Except DecimalFault DecimalFloat :=
  let low := min d e
  let gap := leading a d - leading b e
  if a == 0 then rounded s 0 low
  else if gap ≤ -2 then rounded s (a * Number.tenTo (d - low).toNat) low
  else if gap > precision then .error .invalid
  else
    let x := a * Number.tenTo (d - low).toNat
    let y := b * Number.tenTo (e - low).toNat
    if x / y < Number.tenTo precision then rounded s (x % y) low else .error .invalid

/-- The remainder of two numbers, with the sign of the first one. -/
def mod (x y : DecimalFloat) : Except DecimalFault DecimalFloat :=
  (undefined? x y).getD <| match x, y with
    | infinite _, _ => .error .invalid
    | finite s a d, infinite _ => rounded s a d
    | finite s a d, finite _ b e => if b == 0 then .error .invalid else modFinite s a d b e
    | x, _ => .ok x

/-- How two numbers compare; none if one is no number. -/
def compare? : DecimalFloat → DecimalFloat → Option Ordering
  | nan .., _ | _, nan .. => none
  | infinite s, infinite t => some (compare t.toNat s.toNat)
  | infinite s, finite .. => some (if s then .lt else .gt)
  | finite .., infinite s => some (if s then .gt else .lt)
  | finite s a d, finite t b e =>
    if a == 0 || b == 0 then some (compare (signed s a) (signed t b))
    else if s != t then some (if s then .lt else .gt)
    else
      let size :=
        if leading a d != leading b e then compare (leading a d) (leading b e)
        else
          let low := min d e
          compare (a * Number.tenTo (d - low).toNat) (b * Number.tenTo (e - low).toNat)
      some (if s then size.swap else size)

/-- The integer part of a number, towards zero. -/
def truncate? : DecimalFloat → Option Int
  | finite s c e =>
    if leading c e < 0 then some 0
    else
      some (signed s (if 0 ≤ e then c * Number.tenTo e.toNat else c / Number.tenTo (-e).toNat))
  | _ => none

/-- The nearest double. -/
def toFloat : DecimalFloat → Float
  | finite s c e => Number.ofDecimal s (Nat.toDigits 10 c) e
  | infinite s => if s then -(1.0 / 0.0) else 1.0 / 0.0
  | nan .. => 0.0 / 0.0

end DecimalFloat

end EntityGraph
