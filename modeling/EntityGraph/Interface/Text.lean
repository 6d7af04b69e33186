import EntityGraph.Fault
import EntityGraph.Text.Quoted

/-!
# A type system as text

Definitions are written one after the other with a blank line between them. What the request
language defines itself is not written. A description stands before what it describes, as a block
between triple quotes if reading the block again would give the same text, and as a quoted text
otherwise. A block that is long, has several lines or would end in a way that is hard to read has
its quotes on lines of their own.
-/

namespace EntityGraph.Interface

/-- Whether a character only indents. -/
def isIndent (c : Char) : Bool := c == ' ' || c == '\t'

/-- What is known of a text that is read from its start, to tell whether it can be a block. -/
structure BlockScan where
  /-- Whether the line has nothing but indentation so far. -/
  isLineBlank : Bool
  /-- Whether the line is indented. -/
  isIndented : Bool
  /-- Whether all lines that hold something are indented. -/
  allIndented : Bool
  /-- Whether a line ended that held something. -/
  hasContent : Bool

namespace BlockScan

/-- Before anything is read. -/
def start : BlockScan :=
  { isLineBlank := true, isIndented := false, allIndented := true, hasContent := false }

/-- Reads a character, unless the text cannot be a block for it. -/
def step (b : BlockScan) (c : Char) : Option BlockScan :=
  if c == '\n' then
    if b.isLineBlank && !b.hasContent then none
    else some { b with hasContent := true, isLineBlank := true, isIndented := false }
  else if isIndent c then some { b with isIndented := b.isIndented || b.isLineBlank }
  else if c.toNat ≤ 0x0f then none
  else some { b with allIndented := b.allIndented && b.isIndented, isLineBlank := false }

/-- Whether what was read can be a block. -/
def accepts (b : BlockScan) : Bool := !b.isLineBlank && !(b.allIndented && b.hasContent)

end BlockScan

/-- Whether a text can be written as a block. -/
def isBlockText (s : String) : Bool :=
  (s.toList.foldlM BlockScan.step BlockScan.start).any (·.accepts)

/-- The lines of a text. -/
def linesOf : List Char → List (List Char)
  | [] => [[]]
  | '\r' :: '\n' :: cs => [] :: linesOf cs
  | c :: cs =>
    if c == '\n' || c == '\r' then [] :: linesOf cs
    else
      match linesOf cs with
      | l :: ls => (c :: l) :: ls
      | [] => [[c]]

/-- Three quotes in a row, each of which would end a block, with a backslash before them. -/
def escapeQuotes : List Char → List Char
  | '"' :: '"' :: '"' :: cs => '\\' :: '"' :: '"' :: '"' :: escapeQuotes cs
  | c :: cs => c :: escapeQuotes cs
  | [] => []

/-- The length above which a block has its quotes on lines of their own. -/
def blockWidth : Nat := 70

/-- A text as a block. -/
def blockString (s : String) : String :=
  let body := escapeQuotes s.toList
  let lines := linesOf body
  let isSingle := lines.length == 1
  let indented := fun (l : List Char) => l.isEmpty || l.head?.any isIndent
  let needsStart := !isSingle && (lines.drop 1).all indented
  let endsTriple := ['\\', '"', '"', '"'].isSuffixOf body
  let needsEnd := (s.endsWith "\"" && !endsTriple) || s.endsWith "\\"
  let isSpread := !isSingle || blockWidth < s.length || needsEnd || needsStart || endsTriple
  let staysAtStart := isSingle && s.toList.head?.any isIndent
  let before := if (isSpread && !staysAtStart) || needsStart then "\n" else ""
  let after := if isSpread || needsEnd then "\n" else ""
  "\"\"\"" ++ before ++ String.ofList body ++ after ++ "\"\"\""

/-- A character inside a quoted text. -/
def escapedChar (c : Char) : String :=
  match c with
  | '"' => "\\\""
  | '\\' => "\\\\"
  | '\n' => "\\n"
  | '\t' => "\\t"
  | '\r' => "\\r"
  | c =>
    if c.toNat == 0x08 then "\\b"
    else if c.toNat == 0x0c then "\\f"
    else if c.toNat < 0x20 || (0x7f ≤ c.toNat && c.toNat ≤ 0x9f) then
      "\\u" ++ (EntityGraph.Text.hex 4 c.toNat).toUpper
    else c.toString

/-- A text in quotes. -/
def quotedString (s : String) : String :=
  "\"" ++ String.join (s.toList.map escapedChar) ++ "\""

/-- A text with an indentation after every line end. -/
def indented (indentation s : String) : String :=
  String.join (s.toList.map fun c => if c == '\n' then "\n" ++ indentation else c.toString)

/-- A description before what it describes; the empty one is none. -/
def descriptionText (s indentation : String) (isFirst : Bool) : String :=
  if s.isEmpty then ""
  else
    let text := if isBlockText s then blockString s else quotedString s
    let gap := if !indentation.isEmpty && !isFirst then "\n" else ""
    gap ++ indentation ++ indented indentation text ++ "\n"

namespace ArgumentDef

/-- An argument as it is declared. -/
def text (a : ArgumentDef) : String := a.name ++ ": " ++ a.type.text

end ArgumentDef

namespace FieldDef

/-- A field as it is declared. -/
def text (f : FieldDef) (isFirst : Bool) : String :=
  let args :=
    if f.args.isEmpty then ""
    else "(" ++ String.intercalate ", " (f.args.map (·.text)) ++ ")"
  descriptionText f.description "  " isFirst ++ "  " ++ f.name ++ args ++ ": " ++ f.type.text

end FieldDef

namespace TypeDef

/-- Entries in a block, if there are any. -/
def bodyText (entries : List String) : String :=
  if entries.isEmpty then "" else " \x7b\n" ++ String.intercalate "\n" entries ++ "\n\x7d"

/-- A type as it is declared. -/
def text (t : TypeDef) : String :=
  let head := descriptionText t.description "" true
  match t.body with
  | .scalar => head ++ "scalar " ++ t.name
  | .object fields =>
    head ++ "type " ++ t.name ++ bodyText (fields.mapIdx fun i f => f.text (i == 0))
  | .enumeration values => head ++ "enum " ++ t.name ++ bodyText (values.map ("  " ++ ·))

end TypeDef

/-- A type system as it is written out. -/
def TypeSystem.text (s : TypeSystem) : String :=
  String.intercalate "\n\n"
    ((s.types.filter fun t => !standardScalars.contains t.name).map (·.text))

end EntityGraph.Interface

namespace EntityGraph

/-- The type system of a complete schema as it is written out. -/
def Schema.text (s : Schema) : Outcome String :=
  match s.system with
  | some system => .ok system.text
  | none => .error .noInterface

end EntityGraph
