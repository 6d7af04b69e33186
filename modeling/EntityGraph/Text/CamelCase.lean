import EntityGraph.Text.Character

/-!
# Camel case

Wire names are written in camel case: an underscore before a small ASCII letter or a decimal digit
disappears and the letter after it becomes a capital; then the first character becomes small.
Matches are taken from left to right and never overlap, so of two underscores only the second can
disappear.
-/

namespace EntityGraph.Text

/-- Whether an underscore before this character joins two words. -/
def startsWord (c : Char) : Bool :=
  ('a' ≤ c && c ≤ 'z') || isDecimalDigit c

/-- Every joining underscore dropped, and the character after it in upper case. -/
def joinWords : List Char → List Char
  | '_' :: c :: rest =>
    if startsWord c then upperChar c ++ joinWords rest else '_' :: joinWords (c :: rest)
  | c :: rest => c :: joinWords rest
  | [] => []

/-- The wire name of a host member. -/
def camelCase (name : String) : String :=
  lowerFirst (String.ofList (joinWords name.toList))

end EntityGraph.Text
