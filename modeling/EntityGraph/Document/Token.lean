import EntityGraph.Document.Basic
import EntityGraph.Text.Hex

/-!
# Tokens of documents

Blanks, commas, line ends and comments only separate. Everything else is a token: a punctuation
mark, a name, a number or a text. What is no token ends the list with a mark of its own; whoever
reads that far meets it.

A block text is written between triple quotes. It loses the indentation that all its lines but the
first have in common, and its blank lines at both ends.
-/

namespace EntityGraph.Document

open Interface (startsName continuesName)

/-- A token. -/
inductive Token where
  /-- A punctuation mark of one character. -/
  | mark (c : Char)
  /-- Three points. -/
  | spread
  | name (s : String)
  | int (written : String)
  | float (written : String)
  | str (s : String) (isBlock : Bool)
  /-- No token: nothing starts or continues so. -/
  | bad
  deriving DecidableEq, Repr, Inhabited

namespace Token

/-- Whether a character is a punctuation mark; the last three are the braces and the bar. -/
def isMark (c : Char) : Bool :=
  ['!', '$', '&', '(', ')', ':', '=', '@', '[', ']'].contains c
    || (0x7b ≤ c.toNat && c.toNat ≤ 0x7d)

/-- Whether a character only separates tokens. -/
def isBlank (c : Char) : Bool :=
  [' ', '\t', ',', '\n', '\r'].contains c || c.toNat == 0xfeff

/-- Digits, at least one, and the rest. -/
def takeDigits (cs : List Char) : Option (List Char × List Char) :=
  let ds := cs.takeWhile Char.isDigit
  if ds.isEmpty then none else some (ds, cs.dropWhile Char.isDigit)

/-- The fraction of a number, with its point. -/
def takeFraction (cs : List Char) : Option (List Char × List Char) :=
  match cs with
  | '.' :: rest => (takeDigits rest).map fun (ds, rest) => ('.' :: ds, rest)
  | cs => some ([], cs)

/-- The exponent of a number, with its mark and its sign. -/
def takeExponent (cs : List Char) : Option (List Char × List Char) :=
  match cs with
  | c :: rest =>
    if c == 'e' || c == 'E' then
      let (sign, rest) := match rest with
        | s :: more => if s == '+' || s == '-' then ([s], more) else ([], rest)
        | [] => ([], rest)
      (takeDigits rest).map fun (ds, rest) => (c :: sign ++ ds, rest)
    else some ([], cs)
  | [] => some ([], [])

/-- The digits before a point: a zero stands alone. -/
def takeWhole (cs : List Char) : Option (List Char × List Char) :=
  match cs with
  | '0' :: rest => if rest.head?.any Char.isDigit then none else some (['0'], rest)
  | cs => takeDigits cs

/-- A number, which neither a point nor a name may follow. -/
def takeNumber (cs : List Char) : Option (Token × List Char) := do
  let (sign, body) := match cs with
    | '-' :: rest => (['-'], rest)
    | cs => ([], cs)
  let (whole, rest) ← takeWhole body
  let (fraction, rest) ← takeFraction rest
  let (exponent, rest) ← takeExponent rest
  if rest.head?.any fun c => c == '.' || startsName c then none
  else if fraction.isEmpty && exponent.isEmpty then
    some (.int (String.ofList (sign ++ whole)), rest)
  else some (.float (String.ofList (sign ++ whole ++ fraction ++ exponent)), rest)

/-- The character with a code point, if it is one. -/
def scalar? (n : Nat) : Option Char :=
  if n ≤ 0xd7ff || (0xe000 ≤ n && n ≤ 0x10ffff) then some (Char.ofNat n) else none

/-- Four hexadecimal digits. -/
def takeUnit (cs : List Char) : Option (Nat × List Char) :=
  if cs.length < 4 then none
  else (Text.hexNumber? (cs.take 4)).map fun n => (n, cs.drop 4)

/-- The second half of a character whose first half was read. -/
def takeLowHalf (cs : List Char) : Option (Nat × List Char) :=
  match cs with
  | '\\' :: 'u' :: rest => do
    let (low, rest) ← takeUnit rest
    if 0xdc00 ≤ low && low ≤ 0xdfff then return (low, rest) else none
  | _ => none

/-- The escape of a character by the four digits of its code unit, or by those of two halves. -/
def takeFixed (cs : List Char) : Option (Char × List Char) := do
  let (unit, rest) ← takeUnit cs
  match scalar? unit with
  | some c => return (c, rest)
  | none =>
    if unit ≤ 0xdbff then
      let (low, rest) ← takeLowHalf rest
      return (Char.ofNat (0x10000 + (unit - 0xd800) * 0x400 + (low - 0xdc00)), rest)
    else none

/-- The escape of a character by its code point between braces. -/
def takeVariable (cs : List Char) : Option (Char × List Char) :=
  let isClose := fun (c : Char) => c.toNat == 0x7d
  let ds := (cs.take 8).takeWhile (!isClose ·)
  let rest := cs.drop ds.length
  match rest with
  | c :: rest =>
    if isClose c && !ds.isEmpty then ((Text.hexNumber? ds).bind scalar?).map fun c => (c, rest)
    else none
  | [] => none

/-- The character that an escape by a single letter stands for. -/
def escaped? (c : Char) : Option Char :=
  [('"', '"'), ('\\', '\\'), ('/', '/'), ('b', '\x08'), ('f', '\x0c'), ('n', '\n'), ('r', '\r'),
    ('t', '\t')].lookup c

/-- An escape after its backslash. -/
def takeEscape (cs : List Char) : Option (Char × List Char) :=
  match cs with
  | [] => none
  | 'u' :: rest =>
    match rest with
    | c :: more => if c.toNat == 0x7b then takeVariable more else takeFixed rest
    | [] => takeFixed rest
  | c :: rest => (escaped? c).map fun e => (e, rest)

/-- A text after its opening quote. -/
def takeText : Nat → List Char → List Char → Option (Token × List Char)
  | 0, _, _ => none
  | fuel + 1, done, cs =>
    match cs with
    | [] => none
    | '"' :: rest => some (.str (String.ofList done.reverse) false, rest)
    | '\\' :: rest => do
      let (c, rest) ← takeEscape rest
      takeText fuel (c :: done) rest
    | c :: rest =>
      if c == '\n' || c == '\r' then none else takeText fuel (c :: done) rest

/-- The number of blanks that a line starts with. -/
def indentation (line : List Char) : Nat :=
  (line.takeWhile fun c => c == ' ' || c == '\t').length

/-- Whether a line holds blanks only. -/
def isBlankLine (line : List Char) : Bool := indentation line == line.length

/-- A list without the elements at both ends that satisfy a test. -/
def trimEnds {α : Type} (p : α → Bool) (xs : List α) : List α :=
  ((xs.dropWhile p).reverse.dropWhile p).reverse

/-- Lines without their common indentation, to which the first line does not contribute. -/
def unindent : List (List Char) → List (List Char)
  | [] => []
  | first :: rest =>
    let depths := (rest.filter (!isBlankLine ·)).map indentation
    match depths.min? with
    | some depth => first :: rest.map (·.drop depth)
    | none => first :: rest.map fun _ => []

/-- The text that the lines of a block stand for. -/
def blockText (lines : List (List Char)) : String :=
  let kept := trimEnds (fun (blank, _) => blank) ((lines.map isBlankLine).zip (unindent lines))
  String.intercalate "\n" (kept.map fun (_, line) => String.ofList line)

/-- The lines of a block after its opening quotes; the last one comes first in what is done. -/
def takeBlock : Nat → List (List Char) → List Char → List Char →
    Option (Token × List Char)
  | 0, _, _, _ => none
  | fuel + 1, lines, line, cs =>
    match cs with
    | [] => none
    | '"' :: '"' :: '"' :: rest =>
      some (.str (blockText (line.reverse :: lines).reverse) true, rest)
    | '\\' :: '"' :: '"' :: '"' :: rest => takeBlock fuel lines ('"' :: '"' :: '"' :: line) rest
    | '\r' :: '\n' :: rest => takeBlock fuel (line.reverse :: lines) [] rest
    | c :: rest =>
      if c == '\n' || c == '\r' then takeBlock fuel (line.reverse :: lines) [] rest
      else takeBlock fuel lines (c :: line) rest

/-- The first token of characters of which the first one is no blank. -/
def takeToken (cs : List Char) : Option (Token × List Char) :=
  match cs with
  | '.' :: '.' :: '.' :: rest => some (.spread, rest)
  | '"' :: '"' :: '"' :: rest => takeBlock (rest.length + 1) [] [] rest
  | '"' :: rest => takeText (rest.length + 1) [] rest
  | c :: rest =>
    if isMark c then some (.mark c, rest)
    else if startsName c then
      some (.name (String.ofList (cs.takeWhile continuesName)), cs.dropWhile continuesName)
    else if c.isDigit || c == '-' then takeNumber cs
    else none
  | [] => none

/-- The tokens of characters, up to the first fault. -/
def scanWithin : Nat → List Char → List Token
  | 0, _ => []
  | fuel + 1, cs =>
    match cs with
    | [] => []
    | c :: rest =>
      if isBlank c then scanWithin fuel rest
      else if c == '#' then
        scanWithin fuel (rest.dropWhile fun c => c != '\n' && c != '\r')
      else
        match takeToken cs with
        | some (t, rest) => t :: scanWithin fuel rest
        | none => [.bad]

/-- The tokens of a text, up to the first fault. -/
def scan (s : String) : List Token :=
  let cs := s.toList
  scanWithin (cs.length + 1) cs

end Token

end EntityGraph.Document
