/-!
# Hexadecimal digits

Numbers and bytes are written in lower-case hexadecimal digits and read in either case.
-/

namespace EntityGraph.Text

/-- The lower-case hexadecimal digits of a number, padded with zeros to a width. -/
def hex (width n : Nat) : String :=
  let digits := String.ofList (Nat.toDigits 16 n)
  String.ofList (List.replicate (width - digits.length) '0') ++ digits

/-- The value of a hexadecimal digit. -/
def hexValue? (c : Char) : Option Nat :=
  if c.isDigit then some (c.toNat - '0'.toNat)
  else if 'a' ≤ c && c ≤ 'f' then some (c.toNat - 'a'.toNat + 10)
  else if 'A' ≤ c && c ≤ 'F' then some (c.toNat - 'A'.toNat + 10)
  else none

/-- The value of a string of hexadecimal digits. -/
def hexNumber? (cs : List Char) : Option Nat :=
  cs.foldlM (fun n c => (hexValue? c).map (16 * n + ·)) 0

/-- Bytes as hexadecimal digits, two for each. -/
def hexBytes (bs : List UInt8) : String := String.join (bs.map fun b => hex 2 b.toNat)

/-- The bytes that hexadecimal digits write, two for each. -/
def bytesOfHex : List Char → List UInt8
  | a :: b :: rest => UInt8.ofNat ((hexNumber? [a, b]).getD 0) :: bytesOfHex rest
  | _ => []

end EntityGraph.Text
