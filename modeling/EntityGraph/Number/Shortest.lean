import EntityGraph.Number.Binary
import EntityGraph.Text.Quoted

/-!
# The shortest text of a number

A double is written with the fewest significant digits that read back as the same double, and of
those the nearest ones. The reals that round to ±m · 2^q form an interval that reaches half way to
each neighbour; its ends belong to it when m is even. For 1, 2, … 17 digits the two points of the
decimal grid next to the value are tried, and the first grid with a point in the interval wins.

The point is placed for decimal exponents from -4 to 15; outside of them the text has an exponent
of at least two digits.
-/

namespace EntityGraph.Number

/-- The decimal exponent of the leading digit of a positive fraction. -/
def decimalExponent (num den : Nat) : Int :=
  let rec lower (fuel : Nat) (k : Nat) : Int :=
    match fuel with
    | 0 => -(k : Int)
    | fuel + 1 => if num * tenTo k ≥ den then -(k : Int) else lower fuel (k + 1)
  if num < den then lower 400 1
  else ((Nat.toDigits 10 (num / den)).length : Int) - 1

/-- An interval of positive reals around a value, over one denominator. -/
structure Interval where
  low : Nat
  value : Nat
  high : Nat
  denominator : Nat
  closed : Bool

/-- The reals that round to m · 2^q, over a common denominator. -/
def Interval.ofBinary (m : Nat) (q : Int) : Interval :=
  let below := if m == twoTo 52 && q > -1074 then 1 else 2
  let (factor, den) := scale 1 (q - 2)
  ⟨(4 * m - below) * factor, 4 * m * factor, (4 * m + 2) * factor, den, m % 2 == 0⟩

/-- Whether c · 10^s lies in the interval. -/
def Interval.holds (i : Interval) (c : Nat) (s : Int) : Bool :=
  let (point, scaleBy) := if 0 ≤ s then (c * tenTo s.toNat * i.denominator, 1)
    else (c * i.denominator, tenTo (-s).toNat)
  let low := i.low * scaleBy
  let high := i.high * scaleBy
  if i.closed then low ≤ point && point ≤ high else low < point && point < high

/-- The nearer of the grid points c and c + 1 times 10^s that lie in the interval. -/
def Interval.pick (i : Interval) (s : Int) : Option Nat :=
  let (num, den) := if 0 ≤ s then (i.value, i.denominator * tenTo s.toNat)
    else (i.value * tenTo (-s).toNat, i.denominator)
  let c := num / den
  let nearest := roundQuotient num den
  if i.holds nearest s then some nearest
  else
    let other := if nearest == c then c + 1 else c
    if i.holds other s then some other else none

/-- The fewest digits that read back, with the exponent of the last one. -/
def Interval.shortest (i : Interval) (exponent : Int) : Nat → Nat → Nat × Int
  | 0, _ => (i.value, 0)
  | fuel + 1, digits =>
    let s := exponent - (digits : Int) + 1
    match i.pick s with
    | some c => (c, s)
    | none => i.shortest exponent fuel (digits + 1)

/-- Digits without the zeros at their end, and the exponent of the last digit left. -/
def trimZeros : Nat → Nat → Int → Nat × Int
  | 0, c, s => (c, s)
  | fuel + 1, c, s => if c != 0 && c % 10 == 0 then trimZeros fuel (c / 10) (s + 1) else (c, s)

/-- Lays out digits whose last one has the decimal exponent s. -/
def layOut (digits : String) (s : Int) : String :=
  let count := digits.length
  let exponent := s + (count : Int) - 1
  if exponent < -4 || 16 ≤ exponent then
    let rest := (digits.drop 1).toString
    let mantissa := (digits.take 1).toString ++ (if rest.isEmpty then "" else "." ++ rest)
    let sign := if exponent < 0 then "-" else "+"
    mantissa ++ "e" ++ sign ++ Text.padded 2 exponent.natAbs
  else if exponent < 0 then
    "0." ++ String.ofList (List.replicate (exponent.natAbs - 1) '0') ++ digits
  else
    let whole := exponent.toNat + 1
    if count ≤ whole then digits ++ String.ofList (List.replicate (whole - count) '0') ++ ".0"
    else (digits.take whole).toString ++ "." ++ (digits.drop whole).toString

/-- The shortest text of a double. -/
def text (x : Float) : String :=
  match Binary.ofFloat? x with
  | none => if x.isNaN then "nan" else if isNegative x then "-inf" else "inf"
  | some b =>
    let sign := if b.negative then "-" else ""
    if b.mantissa == 0 then sign ++ "0.0"
    else
      let i := Interval.ofBinary b.mantissa b.exponent
      let (c, s) := i.shortest (decimalExponent i.value i.denominator) 17 1
      let (c, s) := trimZeros 20 c s
      sign ++ layOut (toString c) s

end EntityGraph.Number
