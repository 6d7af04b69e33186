import EntityGraph.Number.Binary

/-!
# Hypotenuses

The square root of the sum of two squares, with an error of less than one unit in the last place.
The root of the rounded sum is corrected by the first step of Newton's method, with the error of
the sum taken apart so that nothing cancels. Very large and very small sides are scaled by a power
of two first, so that their squares stay within range, and a side that is too short to count is
added as it is.
-/

namespace EntityGraph.Number

/-- The hypotenuse over two sides, the longer one first, whose squares are within range. -/
def hypotenuseInRange (long short : Float) : Float :=
  let h := Float.sqrt (long * long + short * short)
  if h ≤ 2.0 * short then
    let d := h - short
    let a := long * (2.0 * d - long)
    let b := (d - 2.0 * (long - short)) * d
    h - (a + b) / (2.0 * h)
  else
    let d := h - long
    let a := 2.0 * d * (long - 2.0 * short)
    let b := (4.0 * d - short) * short + d * d
    h - (a + b) / (2.0 * h)

/-- A power of two as a double. -/
def floatPower (e : Int) : Float := Float.ofBits (UInt64.ofNat ((e + 1023).toNat * twoTo 52))

/-- The hypotenuse over two sides. An infinite side makes it infinite, whatever the other one is. -/
def hypotenuse (x y : Float) : Float :=
  let x := x.abs
  let y := y.abs
  if x.isInf || y.isInf then 1.0 / 0.0
  else if x.isNaN || y.isNaN then 0.0 / 0.0
  else
    let long := if x < y then y else x
    let short := if x < y then x else y
    let scale := floatPower (-600)
    let negligible := floatPower (-54)
    if long > floatPower 511 then
      if short ≤ long * negligible then long + short
      else hypotenuseInRange (long * scale) (short * scale) / scale
    else if short < floatPower (-459) then
      if long ≥ short / negligible then long + short
      else hypotenuseInRange (long / scale) (short / scale) * scale
    else if short ≤ long * negligible then long + short
    else hypotenuseInRange long short

end EntityGraph.Number
