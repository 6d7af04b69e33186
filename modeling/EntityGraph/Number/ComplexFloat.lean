import EntityGraph.Number.Decimal
import EntityGraph.Number.Hypotenuse
import EntityGraph.Number.Shortest
import EntityGraph.Text.Numeral

/-!
# Complex numbers

A complex number is a pair of doubles. It is written with the fewest digits for each part, and a
part without a fraction has no point; the real part is left out when it is a positive zero.
-/

namespace EntityGraph

/-- A complex number of two doubles. -/
structure ComplexFloat where
  re : Float
  im : Float
  deriving Inhabited

namespace ComplexFloat

/-- Whether two numbers have equal parts. -/
def same (x y : ComplexFloat) : Bool := x.re == y.re && x.im == y.im

/-- The sum of two numbers. -/
def add (x y : ComplexFloat) : ComplexFloat := ⟨x.re + y.re, x.im + y.im⟩

/-- The difference of two numbers. -/
def sub (x y : ComplexFloat) : ComplexFloat := ⟨x.re - y.re, x.im - y.im⟩

/-- The product of two numbers. -/
def mul (x y : ComplexFloat) : ComplexFloat :=
  ⟨x.re * y.re - x.im * y.im, x.re * y.im + x.im * y.re⟩

/-- The quotient of two numbers, scaled by the greater part of the divisor; none if that is zero. -/
def div? (x y : ComplexFloat) : Option ComplexFloat :=
  if y.re.abs ≥ y.im.abs then
    if y.re == 0.0 then none
    else
      let ratio := y.im / y.re
      let den := y.re + y.im * ratio
      some ⟨(x.re + x.im * ratio) / den, (x.im - x.re * ratio) / den⟩
  else if y.im.abs ≥ y.re.abs then
    let ratio := y.re / y.im
    let den := y.re * ratio + y.im
    some ⟨(x.re * ratio + x.im) / den, (x.im * ratio - x.re) / den⟩
  else some ⟨0.0 / 0.0, 0.0 / 0.0⟩

/-- A number with the other sign. -/
def neg (x : ComplexFloat) : ComplexFloat := ⟨-x.re, -x.im⟩

/-- Whether a part of a number is undefined. -/
def isNaN (x : ComplexFloat) : Bool := x.re.isNaN || x.im.isNaN

/-- The distance of a number from zero; none if finite parts are too large for it. -/
def abs? (x : ComplexFloat) : Option Float :=
  let d := Number.hypotenuse x.re x.im
  if x.re.isFinite && x.im.isFinite && !d.isFinite then none else some d

/-- A part of a number, without a fraction that is zero. -/
def partText (x : Float) : String :=
  let s := Number.text x
  if s.endsWith ".0" then (s.dropEnd 2).toString else s

/-- The text of a number. -/
def text (x : ComplexFloat) : String :=
  if x.re == 0.0 && !Number.isNegative x.re then partText x.im ++ "j"
  else
    let im := partText x.im
    let sign := if im.startsWith "-" then "" else "+"
    "(" ++ partText x.re ++ sign ++ im ++ "j)"

/-- Where the last part of a number begins: at a sign that is neither first nor in an exponent. -/
def splitAt (cs : List Char) : Nat :=
  let marks := (List.range cs.length).filter fun i =>
    i != 0 && (cs[i]? == some '+' || cs[i]? == some '-')
      && !(cs[i - 1]? == some 'e' || cs[i - 1]? == some 'E')
  marks.getLast?.getD 0

/-- The factor before an imaginary unit; a sign alone stands for one. -/
def factor? (cs : List Char) : Option Float :=
  if cs.isEmpty || cs == ['+'] then some 1.0
  else if cs == ['-'] then some (-1.0)
  else Number.read? (String.ofList cs)

/-- Reads a number without surrounding blanks; parentheses may surround it, and blanks inside them.
-/
def read? (s : String) : Option ComplexFloat :=
  let cs := match s.toList with
    | '(' :: rest =>
      if rest.getLast? == some ')' then Text.trimNumeral rest.dropLast else '(' :: rest
    | cs => cs
  match cs.getLast? with
  | none => none
  | some last =>
    if last == 'j' || last == 'J' then
      let body := cs.dropLast
      let place := splitAt body
      if place == 0 then (factor? body).map (⟨0.0, ·⟩)
      else do return ⟨← Number.read? (String.ofList (body.take place)), ← factor? (body.drop place)⟩
    else (Number.read? (String.ofList cs)).map (⟨·, 0.0⟩)

end ComplexFloat

end EntityGraph
