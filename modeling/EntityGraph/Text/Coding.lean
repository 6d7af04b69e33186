/-!
# Texts as bytes

Three ways to write a text as bytes are known by name: one byte for each ASCII character, one byte
for each of the first 256 characters, and one to four bytes for every character. Names are read in
any case, and hyphens, underscores and blanks in them are alike.
-/

namespace EntityGraph.Text

/-- A way to write a text as bytes. -/
inductive Coding where
  | ascii | latin | utf8
  deriving DecidableEq, Repr, Inhabited

namespace Coding

/-- The names of the ways. -/
def names : List (String × Coding) :=
  [("utf-8", utf8), ("utf8", utf8), ("u8", utf8), ("ascii", ascii), ("us-ascii", ascii),
    ("646", ascii), ("latin-1", latin), ("latin1", latin), ("latin", latin), ("l1", latin),
    ("iso-8859-1", latin), ("iso8859-1", latin), ("8859", latin), ("cp819", latin)]

/-- The way with a name. -/
def ofName? (name : String) : Option Coding :=
  let plain := name.toList.map fun c => if c == '_' || c == ' ' then '-' else c.toLower
  names.lookup (String.ofList plain)

/-- The bytes of a text; none if it holds a character that has none. -/
def encode? (coding : Coding) (s : String) : Option (List UInt8) :=
  let below := fun (bound : Nat) =>
    s.toList.mapM fun c => if c.toNat < bound then some (UInt8.ofNat c.toNat) else none
  match coding with
  | ascii => below 0x80
  | latin => below 0x100
  | utf8 => some s.toUTF8.toList

/-- The text that bytes write. -/
def decode? (coding : Coding) (bs : List UInt8) : Option String :=
  let below := fun (bound : Nat) =>
    (bs.mapM fun b => if b.toNat < bound then some (Char.ofNat b.toNat) else none).map String.ofList
  match coding with
  | ascii => below 0x80
  | latin => below 0x100
  | utf8 => String.fromUTF8? ⟨bs.toArray⟩

end Coding

end EntityGraph.Text
