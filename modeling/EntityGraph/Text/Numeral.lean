import EntityGraph.Text.Character

/-!
# Numerals

A number can be written with the decimal digits of any script and with blanks around it. Its plain
form has ASCII digits and no blanks at its ends. A text of ASCII characters alone is in that form
apart from its blanks, of which the four separators of records are none. For some numbers these
count as blanks too.
-/

namespace EntityGraph.Text

/-- Blanks beyond the ASCII characters, as inclusive ranges. -/
def wideBlanks : List (Nat × Nat) :=
  [(0x85, 0x85), (0xa0, 0xa0), (0x1680, 0x1680), (0x2000, 0x200a), (0x2028, 0x2029),
    (0x202f, 0x202f), (0x205f, 0x205f), (0x3000, 0x3000)]

/-- Whether a character separates words. -/
def isBlank (c : Char) : Bool :=
  c == ' ' || (0x09 ≤ c.toNat && c.toNat ≤ 0x0d) || (0x1c ≤ c.toNat && c.toNat ≤ 0x1f)
    || inRanges wideBlanks c.toNat

/-- The value of a decimal digit of any script. Every script has its ten digits in order. -/
def digitValue? (c : Char) : Option Nat :=
  (decimalDigits.find? fun (first, last) => first ≤ c.toNat && c.toNat ≤ last).map
    fun (first, _) => (c.toNat - first) % 10

/-- A character beyond ASCII as the blank or the digit that it stands for. -/
def plainChar (c : Char) : Char :=
  if c.toNat < 0x7f then c
  else if isBlank c then ' '
  else
    match digitValue? c with
    | some d => Char.ofNat ('0'.toNat + d)
    | none => c

/-- Whether a character is a blank that may surround a number. -/
def surrounds (c : Char) : Bool := c == ' ' || (0x09 ≤ c.toNat && c.toNat ≤ 0x0d)

/-- Characters without those at both ends that surround a number. -/
def trimNumeral (cs : List Char) : List Char :=
  ((cs.dropWhile surrounds).reverse.dropWhile surrounds).reverse

/-- The plain form of a numeral around which every blank may stand. -/
def wideNumeral (s : String) : String :=
  let cs := ((s.toList.dropWhile isBlank).reverse.dropWhile isBlank).reverse
  String.ofList (cs.map plainChar)

/-- The plain form of a numeral. -/
def numeral (s : String) : String := String.ofList (trimNumeral (s.toList.map plainChar))

end EntityGraph.Text
