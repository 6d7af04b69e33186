import EntityGraph.Number.Binary

/-!
# Reading decimal numbers

A decimal number is an optional sign, digits with an optional point among them, and an optional
exponent; single underscores may stand between digits. The names of the infinities and of the
undefined number are read in any case. The result is the nearest double, so a number too large
reads as an infinity and one too small as a zero.
-/

namespace EntityGraph.Number

/-- How many digits a whole number may have that is read or written in decimal notation. -/
def digitLimit : Nat := 4300

/-- The least number with too many digits to be written. -/
def writtenBound : Nat := tenTo digitLimit

/-- The leading digits of a text, and the rest. An underscore is dropped where it stands between two
digits; `after` says whether a digit came before. -/
def spanDigits (after : Bool) : List Char → List Char × List Char
  | [] => ([], [])
  | '_' :: c :: rest =>
    if after && c.isDigit then
      let (ds, tail) := spanDigits true rest
      (c :: ds, tail)
    else ([], '_' :: c :: rest)
  | c :: rest =>
    if c.isDigit then
      let (ds, tail) := spanDigits true rest
      (c :: ds, tail)
    else ([], c :: rest)

/-- The value of a string of digits. -/
def digitsValue (ds : List Char) : Nat :=
  ds.foldl (fun n c => 10 * n + (c.toNat - '0'.toNat)) 0

/-- A sign, if there is one, and the rest. -/
def spanSign : List Char → Bool × List Char
  | '-' :: rest => (true, rest)
  | '+' :: rest => (false, rest)
  | rest => (false, rest)

/-- The nearest double to digits · 10^exponent. -/
def ofDecimal (negative : Bool) (digits : List Char) (exponent : Int) : Float :=
  let m := digitsValue digits
  let infinite : Float := if negative then -(1.0 / 0.0) else 1.0 / 0.0
  let zero : Float := if negative then -0.0 else 0.0
  let size : Int := (digits.dropWhile (· == '0')).length + exponent
  if m == 0 then zero
  else if size > 400 then infinite
  else if size < -400 then zero
  else
    let (num, den) := if 0 ≤ exponent then (m * tenTo exponent.toNat, 1)
      else (m, tenTo (-exponent).toNat)
    (ofRatio negative num den).getD infinite

/-- The exponent part of a number: an e, an optional sign and digits, up to the end. -/
def readExponent : List Char → Option Int
  | [] => some 0
  | c :: rest =>
    if c == 'e' || c == 'E' then
      let (negative, rest) := spanSign rest
      let (ds, tail) := spanDigits false rest
      if ds.isEmpty || !tail.isEmpty then none
      else
        let n := digitsValue ds
        some (if negative then -(n : Int) else n)
    else none

/-- Reads a decimal number without surrounding blanks. -/
def read? (s : String) : Option Float :=
  let (negative, body) := spanSign s.toList
  let name := (String.ofList body).toLower
  if name == "nan" then some (0.0 / 0.0)
  else if name == "inf" || name == "infinity" then
    some (if negative then -(1.0 / 0.0) else 1.0 / 0.0)
  else
    let (whole, rest) := spanDigits false body
    let (fraction, rest) := match rest with
      | '.' :: rest => spanDigits false rest
      | rest => ([], rest)
    if whole.isEmpty && fraction.isEmpty then none
    else (readExponent rest).map fun e =>
      ofDecimal negative (whole ++ fraction) (e - fraction.length)

end EntityGraph.Number
