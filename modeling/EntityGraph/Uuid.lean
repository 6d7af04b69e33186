import EntityGraph.Number.Based
import EntityGraph.Text.Hex
import EntityGraph.Text.Numeral

/-!
# UUIDs

A UUID is a number of 128 bits, written as 32 hexadecimal digits in groups of 8, 4, 4, 4 and 12.
It is read more freely: the marks urn: and uuid: are dropped wherever they stand, then braces at
the ends, then all hyphens; exactly 32 characters must be left, which write a number to the base 16.

Its bits are fields of fixed widths: a time in three parts, of which the last starts with a version,
a clock sequence in two parts, of which the first starts with a variant, and a node.
-/

namespace EntityGraph

/-- A number of 128 bits. -/
structure Uuid where
  value : Nat
  deriving DecidableEq, Repr, Inhabited

namespace Uuid

/-- A text without a mark, wherever the mark stands. -/
def dropMark (mark s : String) : String :=
  String.join (s.splitOn mark)

/-- A text without braces at its ends. -/
def stripBraces (cs : List Char) : List Char :=
  let isBrace := fun (c : Char) => c.toNat == 0x7b || c.toNat == 0x7d
  ((cs.dropWhile isBrace).reverse.dropWhile isBrace).reverse

/-- Reads a UUID. -/
def ofText? (s : String) : Option Uuid :=
  let cs := (stripBraces (dropMark "uuid:" (dropMark "urn:" s)).toList).filter (· != '-')
  if cs.length == 32 then
    match Number.readInt? 16 (Text.numeral (String.ofList cs)) with
    | some (.ofNat n) => some ⟨n⟩
    | _ => none
  else none

/-- The hexadecimal digits. -/
def hex (u : Uuid) : String := Text.hex 32 u.value

/-- The written form. -/
def text (u : Uuid) : String :=
  let digits := u.hex.toList
  let group := fun (start count : Nat) => String.ofList ((digits.drop start).take count)
  String.intercalate "-" [group 0 8, group 8 4, group 12 4, group 16 4, group 20 12]

/-- The number that so many bits form, after so many lower ones. -/
def bits (u : Uuid) (count lower : Nat) : Nat :=
  u.value / Number.twoTo lower % Number.twoTo count

/-- The six fields: the low, the middle and the high part of the time, the two parts of the clock
sequence, and the node. -/
def fields (u : Uuid) : List (String × Nat) :=
  [("time_low", u.bits 32 96), ("time_mid", u.bits 16 80), ("time_hi_version", u.bits 16 64),
    ("clock_seq_hi_variant", u.bits 8 56), ("clock_seq_low", u.bits 8 48), ("node", u.bits 48 0)]

/-- The numbers that are put together from fields: the time, without the version in its high part,
and the clock sequence, without the variant in its. -/
def joined (u : Uuid) : List (String × Nat) :=
  [("time", (u.bits 12 64 * Number.twoTo 16 + u.bits 16 80) * Number.twoTo 32 + u.bits 32 96),
    ("clock_seq", u.bits 14 48)]

/-- Which layout the fields have, as the highest bits of the clock sequence say. -/
def variant (u : Uuid) : String :=
  if u.bits 1 63 == 0 then "reserved for NCS compatibility"
  else if u.bits 1 62 == 0 then "specified in RFC 4122"
  else if u.bits 1 61 == 0 then "reserved for Microsoft compatibility"
  else "reserved for future definition"

/-- The version, which only the layout in use has. -/
def version? (u : Uuid) : Option Nat :=
  if u.bits 2 62 == 2 then some (u.bits 4 76) else none

/-- The hexadecimal digits with the bytes of each part of the time in reverse order. -/
def littleHex (u : Uuid) : String :=
  let digits := u.hex.toList
  let byte := fun (i : Nat) => (digits.drop (2 * i)).take 2
  String.ofList ([3, 2, 1, 0, 5, 4, 7, 6, 8, 9, 10, 11, 12, 13, 14, 15].flatMap byte)

/-- A UUID as its constructor, as messages show it. -/
def shown (u : Uuid) : String :=
  "UUID('" ++ u.text ++ "')"

end Uuid

end EntityGraph
