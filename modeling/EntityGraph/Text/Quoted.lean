import EntityGraph.Text.Character
import EntityGraph.Text.Hex

/-!
# Quoted text

Messages show a text inside quotes. The quote is the single one unless the text holds a single
quote and no double one. The quote itself, the backslash and the three usual controls are escaped
by a backslash; every other unprintable character is written as its code point in two, four or
eight lower-case hexadecimal digits.

The file also holds the two ways in which shown things are joined: between brackets, and as a
tuple, whose single element keeps its comma.
-/

namespace EntityGraph.Text

/-- The decimal digits of a number, padded with zeros to a width. -/
def padded (width n : Nat) : String :=
  let digits := toString n
  String.ofList (List.replicate (width - digits.length) '0') ++ digits

/-- The quote that surrounds a text. -/
def quoteOf (s : String) : Char :=
  let cs := s.toList
  if cs.contains '\'' && !cs.contains '"' then '"' else '\''

/-- One character of a quoted text. -/
def escapeChar (quote c : Char) : String :=
  if c == quote || c == '\\' then String.ofList ['\\', c]
  else if c == '\n' then "\\n"
  else if c == '\r' then "\\r"
  else if c == '\t' then "\\t"
  else if isPrintable c then c.toString
  else if c.toNat < 0x100 then "\\x" ++ hex 2 c.toNat
  else if c.toNat < 0x10000 then "\\u" ++ hex 4 c.toNat
  else "\\U" ++ hex 8 c.toNat

/-- A text between quotes. -/
def quoted (s : String) : String :=
  let quote := quoteOf s
  let body := s.toList.map (escapeChar quote)
  quote.toString ++ String.join body ++ quote.toString

/-- One byte of a quoted byte string. -/
def escapeByte (quote : Char) (b : UInt8) : String :=
  if b.toNat < 0x7f then escapeChar quote (Char.ofNat b.toNat) else "\\x" ++ hex 2 b.toNat

/-- Bytes between quotes, marked by a leading b. -/
def quotedBytes (bs : List UInt8) : String :=
  let has := fun (c : Char) => bs.any fun b => b.toNat == c.toNat
  let quote := if has '\'' && !has '"' then '"' else '\''
  "b" ++ quote.toString ++ String.join (bs.map (escapeByte quote)) ++ quote.toString

/-- Shown things separated by a comma and a space. -/
def commaSeparated (parts : List String) : String :=
  String.intercalate ", " parts

/-- Shown things between square brackets. -/
def bracketed (parts : List String) : String :=
  "[" ++ commaSeparated parts ++ "]"

/-- Shown things as a tuple: a lone element is followed by a comma. -/
def parenthesised : List String → String
  | [part] => "(" ++ part ++ ",)"
  | parts => "(" ++ commaSeparated parts ++ ")"

/-- Texts as a bracketed list of quoted ones. -/
def quotedList (names : List String) : String :=
  bracketed (names.map quoted)

end EntityGraph.Text
