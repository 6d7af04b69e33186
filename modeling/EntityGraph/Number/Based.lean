import EntityGraph.Number.Decimal

/-!
# Integers in any base

An integer can be read in every base from 2 to 36. Letters of either case are the digits from ten
on. A sign may stand first, then the mark of one of the bases 2, 8 and 16, and single underscores
may stand between digits and after a mark. Without a base the mark tells it, and a number without a
mark is decimal and does not start with a zero.

How many digits a number may have is limited, except where the base is a power of two.
-/

namespace EntityGraph.Number

/-- The bases that have a mark, with the letter of the mark. -/
def markedBases : List (Char × Nat) := [('b', 2), ('o', 8), ('x', 16)]

/-- The value of a digit in a base. -/
def digitIn? (base : Nat) (c : Char) : Option Nat :=
  let d := if c.isDigit then c.toNat - '0'.toNat
    else if c.isLower then c.toNat - 'a'.toNat + 10
    else if c.isUpper then c.toNat - 'A'.toNat + 10
    else base
  if d < base then some d else none

/-- The digits of a number without its sign; `after` says whether a digit came before. -/
def digitsIn? (base : Nat) : Bool → List Char → Option (List Nat)
  | after, [] => if after then some [] else none
  | after, '_' :: rest => if after then digitsIn? base false rest else none
  | _, c :: rest => do return (← digitIn? base c) :: (← digitsIn? base true rest)

/-- A base whose digits can be grouped into bits. -/
def isPowerOfTwo (base : Nat) : Bool := [2, 4, 8, 16, 32].contains base

/-- The value of digits in a base, unless they are too many. -/
def valueIn? (base : Nat) (ds : List Nat) : Option Nat :=
  if ds.length > digitLimit && !isPowerOfTwo base then none
  else some (ds.foldl (fun n d => base * n + d) 0)

/-- The base of a number whose mark has to tell it, and the number without its mark; a mark of the
base itself is dropped, with an underscore after it. -/
def dropMark (base : Nat) (cs : List Char) : Nat × List Char :=
  match cs with
  | '0' :: c :: rest =>
    match markedBases.lookup c.toLower with
    | some marked =>
      if base == 0 || base == marked then
        (marked, if rest.head? == some '_' then rest.drop 1 else rest)
      else (base, cs)
    | none => (if base == 0 then 10 else base, cs)
  | cs => (if base == 0 then 10 else base, cs)

/-- Reads a number without its sign. -/
def readNat? (base : Nat) (cs : List Char) : Option Nat := do
  let (actual, body) := dropMark base cs
  let n ← valueIn? actual (← digitsIn? actual false body)
  if base == 0 && actual == 10 && cs.head? == some '0' && n != 0 then none else some n

/-- Reads an integer without surrounding blanks; the base 0 is told by a mark. -/
def readInt? (base : Nat) (s : String) : Option Int :=
  let (negative, body) := spanSign s.toList
  (readNat? base body).map fun n => if negative then -(n : Int) else n

end EntityGraph.Number
