import EntityGraph.Value.Arithmetic

/-!
# Methods of texts and of bytes

Cutting a text at a separator or at blanks, replacing parts of it, and asking what it starts and
ends with. A count bounds how often a text is cut or replaced, from the left. Bytes have the same
methods, and can be looked for by their numbers too.
-/

namespace EntityGraph

namespace Fault

/-- A method that takes no arguments is called with some. -/
def takesNone (method : String) (given : Nat) : Fault :=
  wrongType (method ++ "() takes no arguments (" ++ toString given ++ " given)")

/-- A method that takes one argument is called with another number of them. -/
def takesOne (method : String) (given : Nat) : Fault :=
  wrongType (method ++ "() takes exactly one argument (" ++ toString given ++ " given)")

/-- A method that is modelled only by its name is called. -/
def notModelled (method : String) : Fault := wrongType (method ++ "() cannot be called so")

end Fault

namespace Value

/-- The pieces of characters between the first `limit` occurrences of a separator. `skip` characters
of an occurrence are left to be passed over, and `piece` is the piece so far, backwards. -/
def pieces (sep : List Char) : (limit skip : Nat) → (piece : List Char) → List Char →
    List (List Char)
  | _, _, piece, [] => [piece.reverse]
  | limit, skip + 1, piece, _ :: cs => pieces sep limit skip piece cs
  | limit + 1, 0, piece, c :: cs =>
    if sep.isPrefixOf (c :: cs) then piece.reverse :: pieces sep limit (sep.length - 1) [] cs
    else pieces sep (limit + 1) 0 (c :: piece) cs
  | 0, 0, piece, c :: cs => pieces sep 0 0 (c :: piece) cs

/-- The pieces of characters between occurrences of a separator; without a limit, between all. -/
def splitChars (cs sep : List Char) (limit : Option Nat) : List (List Char) :=
  pieces sep (limit.getD (cs.length + 1)) 0 [] cs

/-- Characters with the first occurrences of a part replaced; without a limit, all of them. The
empty part occurs before every character and at the end. -/
def replaceChars (cs old new : List Char) (limit : Option Nat) : List Char :=
  if old.isEmpty then
    let n := limit.getD (cs.length + 1)
    (cs.mapIdx fun i c => (if i < n then new else []) ++ [c]).flatten
      ++ (if cs.length < n then new else [])
  else new.intercalate (splitChars cs old limit)

/-- The first words between blanks, and what is left after them as one more. -/
def wordsWithin (isBlank : Char → Bool) : (limit : Nat) → List Char → List (List Char)
  | limit, cs =>
    let rest := cs.dropWhile isBlank
    if rest.isEmpty then []
    else
      match limit with
      | 0 => [rest]
      | limit + 1 =>
        rest.takeWhile (!isBlank ·) :: wordsWithin isBlank limit (rest.dropWhile (!isBlank ·))

/-- The first place where a part occurs in characters. -/
def findChars (part : List Char) : Nat → List Char → Option Nat
  | i, [] => if part.isEmpty then some i else Option.none
  | i, c :: cs => if part.isPrefixOf (c :: cs) then some i else findChars part (i + 1) cs

/-- How often a part occurs in characters, without overlaps. -/
def countChars (cs part : List Char) : Nat :=
  if part.isEmpty then cs.length + 1 else (splitChars cs part Option.none).length - 1

/-- Characters without those at their ends that pass a test. -/
def stripChars (test : Char → Bool) (cs : List Char) : List Char :=
  ((cs.dropWhile test).reverse.dropWhile test).reverse

section

variable (w : World)

/-- The bound that an argument sets on how often something is done. A negative one sets none. -/
def limitArgument (v : Value) : Outcome (Option Nat) :=
  match v.asInt? with
  | some n =>
    if n.natAbs ≥ addressLimit then .error (.host .overflow "integer too large")
    else .ok (if n < 0 then Option.none else some n.toNat)
  | Option.none => .error (.notInteger (v.fullTypeName w))

/-- The place that an argument names in a sequence of `size` elements; negative numbers count from
the end. -/
def placeArgument (size : Nat) (orNone : Bool) (otherwise : Nat) (v : Value) : Outcome Nat :=
  match v.asInt? with
  | some n => .ok (if n < 0 then (n + size).toNat else n.toNat)
  | Option.none =>
    if v.isNone && orNone then .ok otherwise
    else
      .error (.wrongType ("slice indices must be integers " ++ (if orNone then "or None " else "")
        ++ "or have an __index__ method"))

/-- The elements from the place that one argument names up to the one that another names, with the
number of the elements before them. -/
def sliceArguments {α : Type} (orNone : Bool) (xs : List α) (bounds : List Value) :
    Outcome (Option (List α) × Nat) := do
  let size := xs.length
  let start ← (bounds[0]?).elim (.ok 0) (placeArgument size orNone 0)
  let stop ← (bounds[1]?).elim (.ok size) (placeArgument size orNone size)
  .ok (if start ≤ Nat.min stop size then some ((xs.take stop).drop start) else Option.none, start)

variable (medium : Medium)

/-- The characters of an argument that has to be a text, or bytes. Of bytes there is but one fault,
of texts each method has its own. -/
def charsOr (textFault : String) (v : Value) : Outcome (List Char) :=
  match medium.chars? v, medium with
  | some cs, _ => .ok cs
  | Option.none, .text => .error (.wrongType textFault)
  | Option.none, .bytes => .error (.notBytes w v)

/-- Whether something starts, or ends, with one of several; the first that it does settles it. -/
def affixAmong (method : String) (test : List Char → Bool) : List Value → Outcome Value
  | [] => .ok (bool false)
  | v :: vs => do
    let cs ← charsOr w medium
      ("tuple for " ++ method ++ " must only contain str, not " ++ v.fullTypeName w) v
    if test cs then .ok (bool true) else affixAmong method test vs

/-- Whether a part of characters starts, or ends, with one argument or with one of a tuple. -/
def affixMethod (method : String) (test : List Char → List Char → Bool) (cs : List Char) :
    List Value → Outcome Value
  | [] => .error (.wrongType (method ++ "() takes at least 1 argument (0 given)"))
  | v :: bounds => do
    if bounds.length > 2 then .error (.tooMany method 3 (bounds.length + 1))
    else
      let (part, _) ← sliceArguments true cs bounds
      let holds := fun (p : List Char) => part.any (test p)
      match medium.chars? v, v.tupleView? w with
      | some p, _ => .ok (bool (holds p))
      | Option.none, some vs => affixAmong w medium method holds vs
      | Option.none, Option.none =>
        let wanted := medium.className
        .error (.wrongType (method ++ " first arg must be " ++ wanted ++ " or a tuple of " ++ wanted
          ++ ", not " ++ v.fullTypeName w))

/-- The characters of an argument that says what is replaced, or by what. -/
def replacedArgument (place : String) (v : Value) : Outcome (List Char) :=
  charsOr w medium ("replace() argument " ++ place ++ " must be str, not " ++ v.argumentType w) v

/-- Characters with parts replaced. -/
def replaceMethod (cs : List Char) (args : List Value) : Outcome Value :=
  match args with
  | old :: new :: rest => do
    if rest.length > 1 then .error (.expected "replace" 2 3 args.length)
    else
      let old ← replacedArgument w medium "1" old
      let new ← replacedArgument w medium "2" new
      let limit ← rest.head?.elim (.ok Option.none) (limitArgument w)
      .ok (medium.value (replaceChars cs old new limit))
  | args => .error (.expected "replace" 2 3 args.length)

/-- The pieces of characters between occurrences of a separator, or their words. -/
def splitMethod (cs : List Char) (args : List Value) : Outcome Value := do
  if args.length > 2 then .error (.tooMany "split" 2 args.length)
  else
    let limit ← (args[1]?).elim (.ok Option.none) (limitArgument w)
    match args.headD none with
    | none =>
      .ok (list ((wordsWithin medium.isBlank (limit.getD cs.length) cs).map medium.value))
    | v =>
      let sep ← charsOr w medium ("must be str or None, not " ++ v.fullTypeName w) v
      if sep.isEmpty then .error (.host .wrongValue "empty separator")
      else .ok (list ((splitChars cs sep limit).map medium.value))

/-- An element of a sequence that is joined, at its place. -/
def joinedElement (v : Value) (place : Nat) : Outcome (List Char) :=
  let wanted := match medium with
    | .text => "str instance"
    | .bytes => "a bytes-like object"
  (medium.chars? v).elim
    (.error (.wrongType ("sequence item " ++ toString place ++ ": expected " ++ wanted ++ ", "
      ++ v.fullTypeName w ++ " found"))) .ok

/-- The elements of a sequence with characters between them. -/
def joinMethod (cs : List Char) (v : Value) : Outcome Value :=
  match v.elements? w with
  | Option.none => .error (.wrongType "can only join an iterable")
  | some vs => do
    let parts ← vs.zipIdx.mapM fun (v, place) => joinedElement w medium v place
    .ok (medium.value (cs.intercalate parts))

/-- The characters that a method looks for. Bytes can be looked for by their numbers. -/
def sought (v : Value) : Outcome (List Char) :=
  match medium.chars? v, medium, v.asInt? with
  | some cs, _, _ => .ok cs
  | Option.none, .text, _ => .error (.wrongType ("must be str, not " ++ v.fullTypeName w))
  | Option.none, .bytes, some n =>
    if 0 ≤ n && n < 256 then .ok [Char.ofNat n.toNat]
    else .error (.host .wrongValue "byte must be in range(0, 256)")
  | Option.none, .bytes, Option.none =>
    .error (.wrongType ("argument should be integer or bytes-like object, not '"
      ++ v.fullTypeName w ++ "'"))

/-- Where a part occurs in characters, or how often; `before` others precede them. -/
def search (method : String) (cs : Option (List Char)) (before : Nat) (part : List Char) :
    Outcome Value :=
  if method == "count" then .ok (int (cs.elim 0 (countChars · part) : Nat))
  else
    match cs.bind (findChars part 0) with
    | some i => .ok (int (before + i : Nat))
    | Option.none =>
      if method == "find" then .ok (int (-1))
      else
        .error (.host .wrongValue
          (if medium == .text then "substring not found" else "subsection not found"))

/-- A method that looks for something in a part of characters. -/
def searchMethod (method : String) (cs : List Char) (args : List Value) : Outcome Value :=
  match args with
  | [] => .error (.wrongType (method ++ "() takes at least 1 argument (0 given)"))
  | v :: bounds => do
    if bounds.length > 2 then .error (.tooMany method 3 args.length)
    else
      let (part, before) ← sliceArguments true cs bounds
      search medium method part before (← sought w medium v)

/-- Characters without blanks, or certain others, at their ends. -/
def stripMethod (cs : List Char) (args : List Value) : Outcome Value :=
  match args with
  | [] | [none] => .ok (medium.value (stripChars medium.isBlank cs))
  | [v] => do
    let outer ← charsOr w medium "strip arg must be None or str" v
    .ok (medium.value (stripChars outer.contains cs))
  | args => .error (.expected "strip" 0 1 args.length)

/-- Characters in upper case. Of bytes only ASCII letters have another case. -/
def upperChars (cs : List Char) : List Char :=
  match medium with
  | .text => (Text.upper (String.ofList cs)).toList
  | .bytes => cs.map Char.toUpper

/-- Characters in lower case. -/
def lowerChars (cs : List Char) : List Char :=
  match medium with
  | .text => cs.flatMap Text.lowerChar
  | .bytes => cs.map Char.toLower

/-- A method of a text or of bytes. -/
def textMethod (cs : List Char) (name : String) (args : List Value) : Outcome Value :=
  let full := medium.className ++ "." ++ name
  match name, args with
  | "startswith", args => affixMethod w medium name List.isPrefixOf cs args
  | "endswith", args => affixMethod w medium name List.isSuffixOf cs args
  | "replace", args => replaceMethod w medium cs args
  | "split", args => splitMethod w medium cs args
  | "find", args | "index", args | "count", args => searchMethod w medium name cs args
  | "strip", args => stripMethod w medium cs args
  | "join", [v] => joinMethod w medium cs v
  | "upper", [] => .ok (medium.value (upperChars medium cs))
  | "lower", [] => .ok (medium.value (lowerChars medium cs))
  | "join", _ => .error (.takesOne full args.length)
  | "upper", _ | "lower", _ => .error (.takesNone full args.length)
  | name, _ => .error (.notModelled name)

end

end Value

end EntityGraph
