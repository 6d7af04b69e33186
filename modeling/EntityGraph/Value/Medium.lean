import EntityGraph.Fault
import EntityGraph.Text.Numeral
import EntityGraph.Value.Shown

/-!
# Texts and bytes alike

What can be done with a text can be done with bytes in the same way, byte by byte. Bytes are then
stood for by the characters that have their numbers.
-/

namespace EntityGraph

/-- What characters stand for: a text or bytes. -/
inductive Medium where
  | text | bytes
  deriving DecidableEq

namespace Medium

/-- The characters that stand for bytes. -/
def charsOf (bs : List UInt8) : List Char := bs.map fun b => Char.ofNat b.toNat

/-- The bytes that characters stand for. -/
def bytesOf (cs : List Char) : List UInt8 := cs.map fun c => UInt8.ofNat c.toNat

/-- The text, or the bytes, that characters stand for. -/
def value (m : Medium) (cs : List Char) : Value :=
  match m with
  | text => .str (String.ofList cs)
  | bytes => .bytes (bytesOf cs)

/-- The characters that stand for a value, if it is a text, or bytes. -/
def chars? (m : Medium) (v : Value) : Option (List Char) :=
  match m, v with
  | text, .str s => some s.toList
  | bytes, .bytes bs => some (charsOf bs)
  | _, _ => none

/-- The name of the class of texts, or of bytes. -/
def className (m : Medium) : String :=
  match m with
  | text => "str"
  | bytes => "bytes"

/-- Whether a character separates words. Of bytes only ASCII characters do. -/
def isBlank (m : Medium) (c : Char) : Bool :=
  match m with
  | text => Text.isBlank c
  | bytes => [' ', '\t', '\n', '\x0b', '\x0c', '\r'].contains c

end Medium

/-- The fault of something else that stands where bytes are needed. -/
def Fault.notBytes (w : World) (v : Value) : Fault :=
  wrongType ("a bytes-like object is required, not '" ++ v.fullTypeName w ++ "'")

end EntityGraph
