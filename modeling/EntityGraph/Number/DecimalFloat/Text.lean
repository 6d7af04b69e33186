import EntityGraph.Number.DecimalFloat

/-!
# Texts of decimal numbers

A decimal number is written with all digits of its coefficient: positionally, unless the exponent is
positive or the number very small, and then with a power of ten behind one leading digit. What is no
number is written by its name and its digits. Reading takes back what is written; underscores among
the digits do not count.
-/

namespace EntityGraph

namespace DecimalFloat

/-- The text of a number: positional unless the exponent is positive or the number very small. -/
def text : DecimalFloat → String
  | infinite s => (if s then "-" else "") ++ "Infinity"
  | nan s signals payload =>
    (if s then "-" else "") ++ (if signals then "sNaN" else "NaN")
      ++ (if payload == 0 then "" else toString payload)
  | finite s c e =>
    let digits := Nat.toDigits 10 c
    let left := e + digits.length
    let place : Int := if e ≤ 0 && left > -6 then left else 1
    let zeros := fun (n : Int) => List.replicate n.toNat '0'
    let body :=
      if place ≤ 0 then '0' :: '.' :: zeros (-place) ++ digits
      else if place ≥ digits.length then digits ++ zeros (place - digits.length)
      else digits.take place.toNat ++ '.' :: digits.drop place.toNat
    let power := left - place
    (if s then "-" else "") ++ String.ofList body
      ++ (if power == 0 then "" else (if power < 0 then "E-" else "E+") ++ toString power.natAbs)

/-- Digits with an optional point among them and an optional exponent. Underscores are dropped
before. -/
def readFinite? (negative : Bool) (cs : List Char) : Option DecimalFloat :=
  let whole := cs.takeWhile Char.isDigit
  let rest := cs.dropWhile Char.isDigit
  let (fraction, rest) := match rest with
    | '.' :: rest => (rest.takeWhile Char.isDigit, rest.dropWhile Char.isDigit)
    | rest => ([], rest)
  if whole.isEmpty && fraction.isEmpty then none
  else
    (Number.readExponent rest).map fun e =>
      finite negative (Number.digitsValue (whole ++ fraction)) (e - fraction.length)

/-- The digits of what is no number, behind its name. -/
def readPayload? (negative signals : Bool) (cs : List Char) : Option DecimalFloat :=
  if cs.all Char.isDigit then some (nan negative signals (Number.digitsValue cs)) else none

/-- Reads digits, the name of an infinity, or what is no number. -/
def readBody? (negative : Bool) (cs : List Char) : Option DecimalFloat :=
  match cs.map Char.toLower with
  | ['i', 'n', 'f'] | ['i', 'n', 'f', 'i', 'n', 'i', 't', 'y'] => some (infinite negative)
  | 'n' :: 'a' :: 'n' :: rest => readPayload? negative false rest
  | 's' :: 'n' :: 'a' :: 'n' :: rest => readPayload? negative true rest
  | _ => readFinite? negative cs

/-- Reads a number without surrounding blanks, unless it is out of range. -/
def read? (s : String) : Option DecimalFloat :=
  let (negative, body) := Number.spanSign (s.toList.filter (· != '_'))
  (readBody? negative body).filter (isWithin .written)

/-- How the third part of a triple writes what has no exponent. -/
def readMark? (negative : Bool) (payload : Nat) (mark : String) : Option DecimalFloat :=
  match mark with
  | "F" => some (infinite negative)
  | "n" => some (nan negative false payload)
  | "N" => some (nan negative true payload)
  | _ => none

end DecimalFloat

end EntityGraph
