import EntityGraph.Number.Form
import EntityGraph.Value.Item
import EntityGraph.Value.Legible
import EntityGraph.Value.Medium

/-!
# Texts that are filled in

A text may hold directives that are filled in from left to right with the elements of a tuple, or
with one other value. A directive is a percent sign, then optionally the name of an entry in
parentheses, then flags, a width, a precision, one of three letters that mean nothing, and the
letter that says how the value is written. A star stands for a width or a precision that is the next
value. Two percent signs in a row write one.

A name in parentheses takes the place of the next value: it is looked up in the value that the text
is filled in with. Such a value may stay unused; all others must be used up.

Bytes are filled in in the same way, byte by byte, with bytes for names and for texts.
-/

namespace EntityGraph

/-- How a directive writes its value. -/
structure Directive where
  leftAligned : Bool
  signed : Bool
  spaced : Bool
  alternate : Bool
  zeros : Bool
  width : Option Nat
  precision : Option Nat
  letter : Char

namespace Directive

/-- The marks that change how a value is written. -/
def flags : List Char := ['-', '+', ' ', '#', '0']

/-- The letters that write a number: those of integers and those of doubles. -/
def integerLetters : List Char := ['d', 'i', 'u', 'o', 'x', 'X']

/-- The letters that write a double. -/
def floatLetters : List Char := ['e', 'E', 'f', 'F', 'g', 'G']

/-- Whether a directive writes a number, which may have a sign. -/
def isNumeric (d : Directive) : Bool := (integerLetters ++ floatLetters).contains d.letter

/-- Whether a directive writes an integer with a mark of its base. -/
def hasBaseMark (d : Directive) : Bool := d.alternate && ['o', 'x', 'X'].contains d.letter

/-- The sign that a number is written with, and what follows it. -/
def splitSign (d : Directive) (body : List Char) : List Char × List Char :=
  if !d.isNumeric then ([], body)
  else
    match body with
    | '-' :: rest => (['-'], rest)
    | body => (if d.signed then ['+'] else if d.spaced then [' '] else [], body)

/-- A written value, with its sign, brought to the width of its directive. Zeros go between the sign
and the digits, and blanks before the sign or, on demand, after everything. -/
def layOut (d : Directive) (body : List Char) : List Char :=
  let (sign, rest) := d.splitSign body
  let mark := if d.hasBaseMark then rest.take 2 else []
  let digits := rest.drop mark.length
  let missing := d.width.getD 0 - (sign.length + rest.length)
  if d.leftAligned then sign ++ mark ++ digits ++ List.replicate missing ' '
  else if d.zeros && d.isNumeric then sign ++ mark ++ List.replicate missing '0' ++ digits
  else List.replicate missing ' ' ++ sign ++ mark ++ digits

/-- The digits of an integer in the base of a letter, with the mark of the base. -/
def baseDigits (letter : Char) (n : Nat) : List Char × List Char :=
  match letter with
  | 'o' => (['0', 'o'], Nat.toDigits 8 n)
  | 'x' => (['0', 'x'], Nat.toDigits 16 n)
  | 'X' => (['0', 'X'], (Nat.toDigits 16 n).map Char.toUpper)
  | _ => ([], Nat.toDigits 10 n)

/-- An integer; the precision is the least number of digits. -/
def integerText (d : Directive) (n : Int) : List Char :=
  let (mark, digits) := baseDigits d.letter n.natAbs
  let zeros := List.replicate (d.precision.getD 0 - digits.length) '0'
  (if n < 0 then ['-'] else []) ++ (if d.alternate then mark else []) ++ zeros ++ digits

/-- A double. -/
def floatText (d : Directive) (x : Float) : List Char :=
  let way : Number.Form := match d.letter.toLower with
    | 'e' => .exponential
    | 'f' => .fixed
    | _ => .general
  let text := Number.textIn way d.alternate (d.precision.getD 6) x
  if d.letter.isUpper then text.map Char.toUpper else text

/-- A text cut off at the precision. -/
def cutText (d : Directive) (body : List Char) : List Char :=
  d.precision.elim body body.take

end Directive

namespace Filling

/-- The values that are left to be used, and the value that names are looked up in. -/
structure Supplies where
  left : List Value
  mapping : Option Value

/-- The fault of a directive that ends too early. -/
def incomplete : Fault := .host .wrongValue "incomplete format"

/-- The next value. -/
def next (s : Supplies) : Outcome (Value × Supplies) :=
  match s.left with
  | v :: left => .ok (v, { s with left })
  | [] => .error (.wrongType "not enough arguments for format string")

/-- The name between parentheses, which may hold balanced ones, and the rest. -/
def spanName : Nat → List Char → Option (List Char × List Char)
  | _, [] => none
  | depth, ')' :: rest =>
    if depth == 0 then some ([], rest)
    else (spanName (depth - 1) rest).map fun (name, rest) => (')' :: name, rest)
  | depth, '(' :: rest =>
    (spanName (depth + 1) rest).map fun (name, rest) => ('(' :: name, rest)
  | depth, c :: rest => (spanName depth rest).map fun (name, rest) => (c :: name, rest)

/-- Reads the name of an entry and makes the entry the only value left. -/
def takeName (w : World) (medium : Medium) (s : Supplies) (cs : List Char) :
    Outcome (Supplies × List Char) :=
  match cs with
  | '(' :: rest =>
    match s.mapping with
    | none => .error (.wrongType "format requires a mapping")
    | some m =>
      match spanName 0 rest with
      | none => .error (.host .wrongValue "incomplete format key")
      | some (name, rest) => do
        let v ← Value.readItem w m (medium.value name)
        .ok ({ s with left := [v] }, rest)
  | cs => .ok (s, cs)

/-- The next value as a width or a precision. -/
def nextCount (limit : Nat) (s : Supplies) : Outcome (Int × Supplies) := do
  let (v, s) ← next s
  match v.asInt? with
  | none => .error (.wrongType "* wants int")
  | some n =>
    if n.natAbs ≥ limit then .error (.host .overflow "integer too large") else .ok (n, s)

/-- A written width or precision. -/
def writtenCount (limit : Nat) (ds : List Char) : Outcome Nat :=
  let n := Number.digitsValue ds
  if n < limit then .ok n else .error (.host .wrongValue "width or precision too big")

/-- Reads a width: none, a written one, or the next value, whose sign says where blanks go. -/
def takeWidth (s : Supplies) (cs : List Char) :
    Outcome (Option Int × Supplies × List Char) := do
  let limit := Number.twoTo 63
  match cs with
  | '*' :: rest =>
    let (n, s) ← nextCount limit s
    .ok (some n, s, rest)
  | cs =>
    let ds := cs.takeWhile Char.isDigit
    if ds.isEmpty then .ok (none, s, cs)
    else .ok (some (← writtenCount limit ds), s, cs.drop ds.length)

/-- Reads a precision after its point. A negative one is zero, and so is one that is left out. -/
def takePrecision (s : Supplies) (cs : List Char) :
    Outcome (Option Nat × Supplies × List Char) := do
  let limit := Number.twoTo 31
  match cs with
  | '.' :: '*' :: rest =>
    let (n, s) ← nextCount limit s
    .ok (some n.toNat, s, rest)
  | '.' :: rest =>
    let ds := rest.takeWhile Char.isDigit
    .ok (some (← writtenCount limit ds), s, rest.drop ds.length)
  | cs => .ok (none, s, cs)

/-- Reads a directive after its percent sign. -/
def takeDirective (w : World) (medium : Medium) (s : Supplies) (cs : List Char) :
    Outcome (Directive × Supplies × List Char) := do
  let (s, cs) ← takeName w medium s cs
  let marks := cs.takeWhile Directive.flags.contains
  let (width, s, cs) ← takeWidth s (cs.drop marks.length)
  let (precision, s, cs) ← takePrecision s cs
  let cs := match cs with
    | c :: rest => if ['h', 'l', 'L'].contains c then rest else c :: rest
    | [] => []
  match cs with
  | [] => .error incomplete
  | letter :: rest =>
    let d : Directive :=
      { leftAligned := marks.contains '-' || width.any (· < 0), signed := marks.contains '+'
        spaced := marks.contains ' ', alternate := marks.contains '#', zeros := marks.contains '0'
        width := width.map Int.natAbs, precision, letter }
    .ok (d, s, rest)

/-- A character as messages show it where only ASCII is written. -/
def escapeWide (c : Char) : String :=
  if c.toNat < 0x80 then c.toString
  else if c.toNat < 0x100 then "\\x" ++ Text.hex 2 c.toNat
  else if c.toNat < 0x10000 then "\\u" ++ Text.hex 4 c.toNat
  else "\\U" ++ Text.hex 8 c.toNat

/-- A value as messages show it, in ASCII. -/
def asciiText (w : World) (v : Value) : Outcome (List Char) := do
  .ok ((← v.tellShown w).toList.flatMap fun c => (escapeWide c).toList)

/-- The integer that a directive writes. -/
def integerOf (w : World) (d : Directive) (v : Value) : Outcome Int := do
  let wrong (needed : String) : Fault := .wrongType ("%" ++ d.letter.toString ++ " format: "
    ++ needed ++ " is required, not " ++ v.fullTypeName w)
  if ['o', 'x', 'X'].contains d.letter then v.asInt?.elim (.error (wrong "an integer")) .ok
  else
    let n ← (← v.wholePart?).elim (.error (wrong "a real number")) .ok
    if n.natAbs < Number.writtenBound then .ok n
    else .error (.host .wrongValue "Exceeds the limit (4300 digits) for integer string conversion")

/-- The double that a directive writes. For bytes every fault is one of the type. -/
def floatOf (w : World) (medium : Medium) (v : Value) : Outcome Float :=
  match medium, v.realPart? with
  | _, .ok (some x) => .ok x
  | .text, .ok none => .error (.wrongType ("must be real number, not " ++ v.fullTypeName w))
  | .text, .error f => .error f
  | .bytes, _ => .error (.wrongType ("float argument required, not " ++ v.fullTypeName w))

/-- The character that a value is or has the number of. -/
def charOf (medium : Medium) (v : Value) : Outcome Char :=
  let wrong : Fault := .wrongType (if medium == .text then "%c requires int or char"
    else "%c requires an integer in range(256) or a single byte")
  let bound := if medium == .text then 0x110000 else 256
  match medium, v with
  | .text, .str s =>
    match s.toList with
    | [c] => .ok c
    | _ => .error wrong
  | .bytes, .bytes bs =>
    match bs with
    | [b] => .ok (Char.ofNat b.toNat)
    | _ => .error wrong
  | _, v =>
    match v.asInt? with
    | none => .error wrong
    | some n =>
      if 0 ≤ n && n < bound then .ok (Char.ofNat n.toNat)
      else .error (.host .overflow "%c arg not in range")

/-- A value by itself: as a text, or as bytes that are filled in. -/
def plainOf (w : World) (medium : Medium) (v : Value) : Outcome (List Char) :=
  match medium, v with
  | .text, v => do .ok (← v.tellPlain w).toList
  | .bytes, .bytes bs => .ok (Medium.charsOf bs)
  | .bytes, v => .error (.wrongType
      ("%b requires a bytes-like object, or an object that implements __bytes__, not '"
        ++ v.fullTypeName w ++ "'"))

/-- A value as a directive writes it, before it is brought to its width. -/
def written (w : World) (medium : Medium) (d : Directive) (v : Value) : Outcome (List Char) :=
  if Directive.integerLetters.contains d.letter then do .ok (d.integerText (← integerOf w d v))
  else if Directive.floatLetters.contains d.letter then do .ok (d.floatText (← floatOf w medium v))
  else
    match medium, d.letter with
    | _, 's' => do .ok (d.cutText (← plainOf w medium v))
    | .bytes, 'b' => do .ok (d.cutText (← plainOf w medium v))
    | .text, 'r' => do .ok (d.cutText (← v.tellShown w).toList)
    | _, 'a' | .bytes, 'r' => do .ok (d.cutText (← asciiText w v))
    | _, 'c' => do .ok [← charOf medium v]
    | _, _ => .error (.host .wrongValue "unsupported format character")

/-- The widest a directive may be for a text that fits into memory. -/
def widthLimit : Nat := Number.twoTo 32

/-- The fault of values that are left over. -/
def leftOver (medium : Medium) : Fault :=
  .wrongType ("not all arguments converted during "
    ++ (if medium == .text then "string" else "bytes") ++ " formatting")

/-- Fills in characters from left to right. -/
def fillChars (w : World) (medium : Medium) :
    Nat → Supplies → List Char → List Char → Outcome (List Char)
  | 0, _, _, _ => .error incomplete
  | _, s, done, [] =>
    if s.left.isEmpty || s.mapping.isSome then .ok done.reverse else .error (leftOver medium)
  | fuel + 1, s, done, '%' :: '%' :: rest => fillChars w medium fuel s ('%' :: done) rest
  | fuel + 1, s, done, '%' :: rest => do
    let (d, s, rest) ← takeDirective w medium s rest
    let (v, s) ← next s
    let body ← written w medium d v
    if d.width.any (· ≥ widthLimit) then .error (.host .memory "")
    else if s.mapping.isSome && !s.left.isEmpty then .error (leftOver medium)
    else fillChars w medium fuel s ((d.layOut body).reverse ++ done) rest
  | fuel + 1, s, done, c :: rest => fillChars w medium fuel s (c :: done) rest

end Filling

namespace Value

/-- Whether entries of a value can be looked up by name while something is filled in with it. -/
def isMapping (medium : Medium) : Value → Bool
  | dict _ | orderedDict .. | record .. | list _ | proxy .. => true
  | bytes _ => medium == .text
  | _ => false

/-- Characters filled in with a value, or with the elements of a tuple. -/
def fillWith (w : World) (medium : Medium) (cs : List Char) (v : Value) :
    Outcome (List Char) :=
  let supplies : Filling.Supplies := match v.tupleView? w with
    | some vs => { left := vs, mapping := Option.none }
    | Option.none =>
      { left := [v], mapping := if v.isMapping medium then some v else Option.none }
  Filling.fillChars w medium (cs.length + 1) supplies [] cs

/-- A text filled in with a value. -/
def fill (w : World) (s : String) (v : Value) : Outcome Value := do
  .ok (Medium.text.value (← fillWith w .text s.toList v))

/-- Bytes filled in with a value. -/
def fillBytes (w : World) (bs : List UInt8) (v : Value) : Outcome Value := do
  .ok (Medium.bytes.value (← fillWith w .bytes (Medium.charsOf bs) v))

end Value

end EntityGraph
