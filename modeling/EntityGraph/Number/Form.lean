import EntityGraph.Number.Shortest

/-!
# Doubles with a given number of digits

A double can be written with a given number of places after the point, with a given number of digits
and an exponent, or in whichever of these two ways suits its size. The exact value is rounded to
that many digits, a tie to the even digit.

In the last way the number of digits counts all digits; the exponent is written if it is less than
-4 or not less than that number, and zeros at the end are dropped. An alternate form keeps these
zeros, and a point even if no digit follows it.
-/

namespace EntityGraph.Number

/-- The three ways to write a double. -/
inductive Form where
  | fixed | exponential | general
  deriving DecidableEq, Repr, Inhabited

/-- A positive fraction times a power of ten, rounded to an integer. -/
def roundScaled (num den : Nat) (power : Int) : Nat :=
  roundQuotient (num * tenTo power.toNat) (den * tenTo (-power).toNat)

/-- So many leading digits of a fraction, and the decimal exponent of the first one. -/
def leadingDigits (count num den : Nat) : List Char × Int :=
  if num == 0 then (List.replicate count '0', 0)
  else
    let e := decimalExponent num den
    let c := roundScaled num den ((count : Int) - 1 - e)
    if c < tenTo count then (Nat.toDigits 10 c, e) else (Nat.toDigits 10 (c / 10), e + 1)

/-- Digits with a point after the first so many of them; a point at the end only if it is kept. -/
def pointed (keepPoint : Bool) (whole : Nat) (ds : List Char) : List Char :=
  let rest := ds.drop whole
  ds.take whole ++ (if rest.isEmpty && !keepPoint then [] else '.' :: rest)

/-- An exponent of at least two digits. -/
def exponentText (e : Int) : List Char :=
  'e' :: (if e < 0 then '-' else '+') :: (Text.padded 2 e.natAbs).toList

/-- Digits without the zeros at their end. -/
def dropZeros (ds : List Char) : List Char := (ds.reverse.dropWhile (· == '0')).reverse

/-- A positive fraction with so many places after the point. -/
def fixedText (keepPoint : Bool) (places num den : Nat) : List Char :=
  let ds := Nat.toDigits 10 (roundScaled num den places)
  let ds := List.replicate (places + 1 - ds.length) '0' ++ ds
  pointed keepPoint (ds.length - places) ds

/-- A positive fraction with so many digits after the first one, and an exponent. -/
def exponentialText (keepPoint : Bool) (places num den : Nat) : List Char :=
  let (ds, e) := leadingDigits (places + 1) num den
  pointed keepPoint 1 ds ++ exponentText e

/-- A positive fraction with so many digits at most, with an exponent if that suits it. -/
def generalText (alternate : Bool) (count num den : Nat) : List Char :=
  let (ds, e) := leadingDigits count num den
  if e < -4 || (count : Int) ≤ e then
    let ds := if alternate then ds else ds.take 1 ++ dropZeros (ds.drop 1)
    pointed alternate 1 ds ++ exponentText e
  else if e < 0 then
    let ds := List.replicate e.natAbs '0' ++ ds
    pointed alternate 1 (if alternate then ds else ds.take 1 ++ dropZeros (ds.drop 1))
  else
    let whole := e.toNat + 1
    pointed alternate whole
      (if alternate then ds else ds.take whole ++ dropZeros (ds.drop whole))

/-- A double in one of the three ways. Infinities and undefined numbers are written by name. -/
def textIn (way : Form) (alternate : Bool) (digits : Nat) (x : Float) : List Char :=
  match Binary.ofFloat? x with
  | none => (if x.isNaN then "nan" else if isNegative x then "-inf" else "inf").toList
  | some b =>
    let (num, den) := scale b.mantissa b.exponent
    let body := match way with
      | .fixed => fixedText alternate digits num den
      | .exponential => exponentialText alternate digits num den
      | .general => generalText alternate (max digits 1) num den
    if b.negative then '-' :: body else body

end EntityGraph.Number
