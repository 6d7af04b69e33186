import EntityGraph.Number.Based
import EntityGraph.Number.DecimalFloat.Text
import EntityGraph.Scalar.Translate
import EntityGraph.Text.Coding

/-!
# Instances of classes

Calling a class makes an instance of it. The built-in classes convert their arguments; declared
classes take values for their fields, by place or by name, and fill in defaults; a record class
takes names with values and refuses names that are not among its members.
-/

namespace EntityGraph

namespace Value

/-- The numeral that a text or bytes write. Bytes write ASCII characters only. -/
def numeral? : Value → Option String
  | str s => some (Text.numeral s)
  | bytes bs => some (String.ofList (Text.trimNumeral (bs.map fun b => Char.ofNat b.toNat)))
  | _ => Option.none

/-- The integer that a numeral writes in a base. -/
def readInteger (base : Nat) (s : String) : Outcome Value :=
  match Number.readInt? base s with
  | some n => .ok (int n)
  | Option.none => .error (.host .wrongValue "invalid literal for int()")

/-- A value as an integer. -/
def toInteger (w : World) (v : Value) : Outcome Value :=
  match v.numeral? with
  | some s => readInteger 10 s
  | Option.none => do
    match ← v.wholePart? with
    | some n => .ok (int n)
    | Option.none =>
      .error (.wrongType ("int() argument must be a string, a bytes-like object or a real number, "
        ++ "not '" ++ v.fullTypeName w ++ "'"))

/-- The integer that a value writes in a base. -/
def toIntegerIn (w : World) (v base : Value) : Outcome Value :=
  match base.asInt? with
  | Option.none => .error (.notInteger (base.fullTypeName w))
  | some b =>
    if b < 0 || b == 1 || 36 < b then
      .error (.host .wrongValue "int() base must be >= 2 and <= 36, or 0")
    else
      match v.numeral? with
      | some s => readInteger b.toNat s
      | Option.none => .error (.wrongType "int() can't convert non-string with explicit base")

/-- A value as a double. -/
def toDouble (w : World) (v : Value) : Outcome Value :=
  match v, v.numeral? with
  | float x m, _ => .ok (float x m)
  | _, some s =>
    match Number.read? s with
    | some x => .ok (ofFloat x)
    | Option.none => .error (.host .wrongValue "could not convert string to float")
  | v, Option.none => do
    match ← v.realPart? with
    | some x => .ok (ofFloat x)
    | Option.none =>
      .error (.wrongType ("float() argument must be a string or a real number, not '"
        ++ v.fullTypeName w ++ "'"))

/-- A number as a complex one. -/
def complexPart? (v : Value) : Outcome (Option ComplexFloat) :=
  match v with
  | complex z _ => .ok (some z)
  | v => do .ok ((← v.realPart?).map fun x => ⟨x, 0.0⟩)

/-- A value as a complex number. -/
def toComplex (w : World) (v : Value) : Outcome Value :=
  match v with
  | complex z m => .ok (complex z m)
  | str s =>
    match ComplexFloat.read? (Text.numeral s) with
    | some z => .ok (ofComplexFloat z)
    | Option.none => .error (.host .wrongValue "complex() arg is a malformed string")
  | v => do
    match ← v.complexPart? with
    | some z => .ok (ofComplexFloat z)
    | Option.none =>
      .error (.wrongType ("complex() first argument must be a string or a number, not '"
        ++ v.fullTypeName w ++ "'"))

/-- Whether a value can be a part of a complex number. -/
def isNumber (v : Value) : Bool := v.quantity?.isSome

/-- The complex number of two parts, each of which may be complex itself. -/
def toComplexOf (w : World) (re im : Value) : Outcome Value :=
  match re, im with
  | str _, _ => .error (.wrongType "complex() can't take second arg if first is a string")
  | _, str _ => .error (.wrongType "complex() second arg can't be a string")
  | re, im => do
    if !re.isNumber then
      .error (.wrongType ("complex() first argument must be a string or a number, not '"
        ++ re.fullTypeName w ++ "'"))
    else if !im.isNumber then
      .error (.wrongType ("complex() second argument must be a number, not '"
        ++ im.fullTypeName w ++ "'"))
    else
      match re, im, ← re.realPart?, ← im.realPart? with
      | complex x _, complex y _, _, _ => .ok (ofComplexFloat ⟨x.re - y.im, y.re + x.im⟩)
      | complex x _, _, _, some y => .ok (ofComplexFloat ⟨x.re, y + x.im⟩)
      | _, complex y _, some x, _ => .ok (ofComplexFloat ⟨x - y.im, y.re⟩)
      | _, _, x, y => .ok (ofComplexFloat ⟨x.getD 0.0, y.getD 0.0⟩)

/-- The fault of a triple that is no decimal number. -/
def notTriple : Fault := .host .wrongValue "a sign, the digits and an exponent are expected"

/-- Fails for an integer that does not fit into a machine word. -/
def ensureWord (n : Int) : Outcome Unit :=
  if -Number.twoTo 63 ≤ n && n < Number.twoTo 63 then .ok ()
  else .error (.host .overflow "an integer is too large")

/-- An integer of a triple, which lies between zero and a limit. -/
def tripleNumber (limit : Int) (v : Value) : Outcome Nat :=
  match v.asInt? with
  | some n => do
    ensureWord n
    if 0 ≤ n && n ≤ limit then .ok n.toNat else .error notTriple
  | Option.none => .error notTriple

/-- The digits of a triple: a tuple or a list of integers below ten. -/
def tripleDigits (w : World) (v : Value) : Outcome Nat := do
  let some ds := (match v with
    | list vs => some vs
    | v => v.tupleView? w) | .error notTriple
  ds.foldlM (fun n d => do .ok (10 * n + (← tripleNumber 9 d))) 0

/-- The decimal number of a sign, digits, and an exponent or a mark for what has none. -/
def ofTriple (w : World) : List Value → Outcome DecimalFloat
  | [sign, digits, last] => do
    let isNegative := (← tripleNumber 1 sign) == 1
    match last with
    | str mark =>
      if (DecimalFloat.readMark? isNegative 0 mark).isNone then .error notTriple
      else
        let payload ← tripleDigits w digits
        (DecimalFloat.readMark? isNegative payload mark).elim (.error notTriple) .ok
    | last =>
      match last.asInt? with
      | some e => do
        ensureWord e
        .ok (.finite isNegative (← tripleDigits w digits) e)
      | Option.none => .error notTriple
  | _ => .error notTriple

/-- A decimal number that can be written. -/
def ofWritten (d : Option DecimalFloat) : Outcome Value :=
  match d.filter (DecimalFloat.isWithin .written) with
  | some d => .ok (ofDecimalFloat d)
  | Option.none => .error DecimalFault.invalid.toFault

/-- A value as a decimal number. -/
def toDecimal (w : World) (v : Value) : Outcome Value :=
  match v with
  | str s => ofWritten (DecimalFloat.read? (Text.wideNumeral s))
  | float x _ => .ok (ofDecimalFloat (.ofFloat x))
  | decimal d m => .ok (decimal d m)
  | list vs => do ofWritten (some (← ofTriple w vs))
  | v =>
    match v.asInt?, v.tupleView? w with
    | some n, _ => .ok (ofDecimalFloat (.ofInt n))
    | _, some vs => do ofWritten (some (← ofTriple w vs))
    | _, Option.none =>
      .error (.wrongType ("conversion from " ++ v.fullTypeName w ++ " to Decimal is not supported"))

/-- A text that an argument of a class with this name has to be. -/
def namedArgument (w : World) (className argument : String) (v : Value) : Outcome String :=
  match v with
  | str s => .ok s
  | v =>
    .error (.wrongType (className ++ "() argument '" ++ argument ++ "' must be str, not "
      ++ v.argumentType w))

/-- The name of the way to write texts as bytes that the further arguments of a class give. -/
def codingName (w : World) (className : String) (args : List Value) : Outcome String := do
  let coding ← namedArgument w className "encoding" (args.headD none)
  (args.drop 1).forM fun v => do
    let _ ← namedArgument w className "errors" v
  .ok coding

/-- The way to write texts as bytes with a name. -/
def codingOf (name : String) : Outcome Text.Coding :=
  (Text.Coding.ofName? name).elim (.error (.host .unknownCoding name)) .ok

/-- The text that bytes write. Nothing is written in every way. -/
def decodeBytes (w : World) (v : Value) (args : List Value) : Outcome Value := do
  let name ← codingName w "str" args
  match v with
  | bytes [] => .ok (str "")
  | bytes bs => do
    ((← codingOf name).decode? bs).elim (.error (.host .decoding "")) (.ok <| str ·)
  | str _ => .error (.wrongType "decoding str is not supported")
  | v =>
    .error (.wrongType ("decoding to str: need a bytes-like object, " ++ v.fullTypeName w
      ++ " found"))

/-- The bytes that write a text. -/
def encodeText (w : World) (v : Value) (args : List Value) : Outcome Value := do
  let name ← codingName w "bytes" args
  match v with
  | str s => do
    ((← codingOf name).encode? s).elim (.error (.host .encoding "")) (.ok <| bytes ·)
  | _ => .error (.wrongType "encoding without a string argument")

/-- A value as a byte. -/
def toByte (w : World) (v : Value) : Outcome UInt8 :=
  match v.asInt? with
  | some n =>
    if 0 ≤ n && n < 256 then .ok (UInt8.ofNat n.toNat)
    else .error (.host .wrongValue "bytes must be in range(0, 256)")
  | Option.none => .error (.notInteger (v.fullTypeName w))

/-- A value as bytes: so many zeros, or the elements of a sequence. -/
def toBytes (w : World) (v : Value) : Outcome Value :=
  match v with
  | bytes bs => .ok (bytes bs)
  | str _ => .error (.wrongType "string argument without an encoding")
  | v =>
    match v.asInt?, v.elements? w with
    | some n, _ =>
      if n.natAbs ≥ addressLimit then
        .error (.host .overflow "cannot fit 'int' into an index-sized integer")
      else if n < 0 then .error (.host .wrongValue "negative count")
      else if n.toNat ≥ lengthLimit then .error (.host .memory "")
      else .ok (bytes (List.replicate n.toNat 0))
    | _, some vs => do .ok (bytes (← vs.mapM (toByte w)))
    | _, Option.none =>
      .error (.wrongType ("cannot convert '" ++ v.fullTypeName w ++ "' object to bytes"))

/-- The pair that an element of a sequence of pairs is. -/
def pairOf (vs : List Value) : Outcome (Value × Value) :=
  match vs with
  | [k, u] => .ok (k, u)
  | _ => .error (.host .wrongValue "a pair has two elements")

/-- Puts pairs into a dictionary; `split` takes an element at its place apart. -/
def putPairs (w : World) (split : Nat → Value → Outcome (List Value)) :
    Nat → List (Value × Value) → List Value → Outcome (List (Value × Value))
  | _, es, [] => .ok es
  | i, es, p :: ps => do
    let (k, u) ← pairOf (← split i p)
    putPairs w split (i + 1) (← putEntry w es k u) ps

/-- An element of a dictionary's sequence of pairs taken apart. -/
def splitPair (w : World) (i : Nat) (v : Value) : Outcome (List Value) :=
  match v.elements? w with
  | some vs => .ok vs
  | Option.none =>
    .error (.wrongType ("cannot convert dictionary update sequence element #" ++ toString i
      ++ " to a sequence"))

/-- A value as the entries of a dictionary: a mapping as it is, or a sequence of pairs. -/
def toEntries (w : World) (v : Value) : Outcome (List (Value × Value)) :=
  match v, v.entriesView? with
  | _, some (es, _) => .ok es
  | proxy .., _ =>
    .error (.wrongType "ExpressionProxy.keys() returned a non-iterable (type ExpressionProxy)")
  | v, Option.none => do putPairs w (splitPair w) 0 [] (← v.elements w)

/-- A value as the entries of an ordered dictionary. -/
def toOrderedEntries (w : World) (v : Value) : Outcome (List (Value × Value)) :=
  match v.entriesView? with
  | some (es, _) => .ok es
  | Option.none => do putPairs w (fun _ p => p.elements w) 0 [] (← v.elements w)

/-- A record of a record class. -/
def makeRecord (w : World) (typeName : String) (v : Value) : Outcome Value := do
  let entries ← toOrderedEntries w v
  let members := ((w.schema.types.find? (·.name == typeName)).getD default).preMembers
  let unexpected := (entries.map (·.1)).filter fun k => !k.text?.any members.contains
  if unexpected.isEmpty then .ok (record typeName (entries.map fun (k, u) => (k.plain w, u)))
  else .error (.recordMembers typeName unexpected members)

/-- The values of the fields of an instance that is made with values for some of them by name. -/
def filledFields (fields : List MemberDecl) (given : List (String × Value)) :
    Making (List (String × Value)) :=
  fields.mapM fun m =>
    match given.lookup m.name, m.default with
    | some v, _ => return (m.name, v)
    | Option.none, some v => do return (m.name, ← own (.ok (if m.isMade then v.renewed else v)))
    | Option.none, Option.none => throw (.wrongType "missing a required argument")

/-- An instance of a declared class with values for its fields by name. -/
def makeInstance (w : World) (className : String) (given : List (String × Value)) :
    Making Value := do
  let fields := w.classes.fields className
  match w.classes.kindOf className with
  | .record | .namedTuple =>
    if given.any fun (n, _) => !fields.any (·.name == n) then
      throw (.wrongType "got an unexpected keyword argument")
    Making.newObject (.declared className) (← filledFields fields given)
  | _ =>
    if !given.isEmpty then throw (.wrongType (className ++ "() takes no arguments"))
    Making.newObject (.declared className) []

/-- An instance of a declared class with values for its first fields. -/
def makeInOrder (w : World) (className : String) (args : List Value) : Making Value :=
  let fields := w.classes.fields className
  let kind := w.classes.kindOf className
  let defaults := (fields.filter (·.default.isSome)).length
  let isFit := fields.length - defaults ≤ args.length && args.length ≤ fields.length
  if isFit || !(kind == .record || kind == .namedTuple) then
    makeInstance w className
      ((if fields.isEmpty then args.map fun _ => "" else fields.map (·.name)).zip args)
  else
    let maker := if kind == .record then ".__init__" else ".__new__"
    throw (.argumentCount (className ++ maker) ("self" :: fields.map (·.name)) defaults
      (args.length + 1))

/-- The arguments of a time's class as integers, each of which has a bounded size. -/
def timeNumbers (w : World) (args : List Value) : Outcome (List Int) :=
  args.mapM fun v =>
    match v.asInt? with
    | some n =>
      if -Number.twoTo 31 ≤ n && n < Number.twoTo 31 then .ok n
      else .error (.host .overflow "integer too large")
    | Option.none => .error (.notInteger (v.fullTypeName w))

/-- The fault of a time that lacks its year, its month or its day. -/
def missingPart (given : Nat) : Fault :=
  let name := ["year", "month", "day"].getD given ""
  .wrongType ("function missing required argument '" ++ name ++ "' (pos "
    ++ toString (given + 1) ++ ")")

/-- The fault of a time whose parts are out of their ranges. -/
def outOfRange : Fault := .host .wrongValue "day is out of range for month"

/-- The day of a year, a month and a day. -/
def dateOfParts : List Int → Outcome Calendar.Date
  | [y, m, d] =>
    let found := if y < 0 || m < 0 || d < 0 then Option.none
      else Calendar.Date.ofNumbers? y.toNat m.toNat d.toNat
    found.elim (.error outOfRange) .ok
  | parts => .error (missingPart parts.length)

/-- The date of a year, a month and a day. -/
def makeDate (w : World) (args : List Value) : Outcome Value :=
  if args.length > 3 then .error (.functionTakes 3 args.length)
  else do .ok (date (← dateOfParts (← timeNumbers w args)))

/-- The timestamp of a date and a time of day, whose parts may be left out from the last one on. -/
def timestampOfParts (ns : List Int) (offset : Option Int) : Outcome Value := do
  let d ← dateOfParts (ns.take 3)
  let part := fun (i : Nat) => ns.getD i 0
  let isIn := fun (i : Nat) (bound : Int) => 0 ≤ part i && part i < bound
  if isIn 3 24 && isIn 4 60 && isIn 5 60 && isIn 6 1000000 then
    .ok (timestamp ⟨d, (part 3).toNat, (part 4).toNat, (part 5).toNat, (part 6).toNat, offset⟩)
  else .error outOfRange

/-- The timestamp of a date, a time of day and a zone. -/
def makeTimestamp (w : World) (args : List Value) : Outcome Value :=
  if args.length > 8 then
    .error (.wrongType ("function takes at most 8 positional arguments ("
      ++ toString args.length ++ " given)"))
  else do
    let ns ← timeNumbers w (args.take 7)
    match args.getD 7 none with
    | none => timestampOfParts ns Option.none
    | zone minutes => timestampOfParts ns (some minutes)
    | v =>
      let _ ← timestampOfParts ns Option.none
      .error (.wrongType ("tzinfo argument must be None or of a tzinfo subclass, not type '"
        ++ v.fullTypeName w ++ "'"))

/-- The UUID that sixteen bytes write. -/
def uuidOfBytes (w : World) (v : Value) : Outcome Value := do
  if (← v.length w) != 16 then .error (.host .wrongValue "bytes is not a 16-char string")
  else
    match v with
    | bytes bs => .ok (uuid ⟨bs.foldl (fun n b => n * 256 + b.toNat) 0⟩)
    | _ => .error (.host .assertion "")

/-- A UUID of a text or of bytes. Other parts of a UUID, and its version, are not given. -/
def makeUuid (w : World) (args : List Value) : Outcome Value := do
  if args.length > 6 then
    .error (.argumentCount "UUID.__init__"
      ["self", "hex", "bytes", "bytes_le", "fields", "int", "version"] 6 (args.length + 1))
  else
    let given ← (args.take 5).filterM fun v => do .ok (!(← same w v none))
    match given, args with
    | [v], none :: u :: _ => if u.isNone then Primitive.readUuid w none else uuidOfBytes w v
    | [v], _ => Primitive.readUuid w v
    | _, _ => Primitive.readUuid w none

/-- An instance of a built-in class that takes one argument at most. -/
def constructOne (w : World) (b : Builtin) (v : Value) : Outcome Value :=
  match b with
  | .bool => do .ok (bool (← v.truth w))
  | .float => toDouble w v
  | .list => do .ok (list (← v.elements w))
  | .tuple => do .ok (tuple (← v.elements w))
  | .dict => do .ok (dict (← toEntries w v))
  | .orderedDict => do .ok (ofEntries (← toOrderedEntries w v))
  | _ => do makeSet w (← v.elements w)

/-- An instance of a built-in class that was given nothing. -/
def constructEmpty (b : Builtin) : Value :=
  match b with
  | .bool => bool false
  | .int => int 0
  | .float => ofFloat 0.0
  | .complex => ofComplexFloat ⟨0.0, 0.0⟩
  | .decimal => ofDecimalFloat (.ofInt 0)
  | .str => str ""
  | .bytes => bytes []
  | .list => list []
  | .tuple => tuple []
  | .dict => dict []
  | .orderedDict => ofEntries []
  | .set => set []
  | .object => ofClass .object
  | _ => none

/-- An instance of a built-in class. -/
def constructBuiltin (w : World) (b : Builtin) (args : List Value) : Outcome Value :=
  let count := args.length
  match b, args with
  | .date, args => makeDate w args
  | .timestamp, args => makeTimestamp w args
  | .type, [v] => .ok (type (v.typeIn w))
  | .type, _ => .error (.wrongType "type() takes 1 or 3 arguments")
  | .uuid, args => makeUuid w args
  | .celsius, _ => .error (.argumentCount "Celsius.__init__" ["self", "degrees"] 0 (count + 1))
  | b, [] => .ok (constructEmpty b)
  | .int, [v] => toInteger w v
  | .int, [v, base] => toIntegerIn w v base
  | .int, _ => .error (.tooMany "int" 2 count)
  | .complex, [v] => toComplex w v
  | .complex, [re, im] => toComplexOf w re im
  | .complex, _ => .error (.tooMany "complex" 2 count)
  | .decimal, [v] | .decimal, [v, none] => toDecimal w v
  | .decimal, [_, _] => .error (.wrongType "optional argument must be a context")
  | .decimal, _ => .error (.functionTakes 2 count)
  | .str, [v] => do .ok (str (← v.tellPlain w))
  | .str, v :: args => if count > 3 then .error (.tooMany "str" 3 count) else decodeBytes w v args
  | .bytes, [v] => toBytes w v
  | .bytes, v :: args =>
    if count > 3 then .error (.tooMany "bytes" 3 count) else encodeText w v args
  | .object, _ => .error (.wrongType "object() takes no arguments")
  | .noneType, _ => .error (.wrongType "NoneType takes no arguments")
  | .orderedDict, [v] => constructOne w .orderedDict v
  | .orderedDict, _ =>
    .error (.wrongType ("expected at most 1 arguments, got " ++ toString count))
  | b, [v] =>
    if [.bool, .float, .list, .tuple, .dict, .set].contains b then constructOne w b v
    else .error (.wrongType ("cannot create '" ++ b.fullName ++ "' instances"))
  | b, _ => .error (.expected b.name 0 1 count)

/-- An instance of a class, from arguments by place. -/
def construct (w : World) (t : HostType) (args : List Value) : Making Value :=
  match t, args with
  | .builtin .celsius, [v] => makeCelsius v
  | .builtin b, args => own (constructBuiltin w b args)
  | .record n, [] => makeRecord w n (list [])
  | .record n, [v] => makeRecord w n v
  | .record n, _ =>
    throw (.argumentCount (n ++ ".__init__") ["self", "values"] 1 (args.length + 1))
  | .declared c, args => makeInOrder w c args
  | t, _ => throw (.wrongType ("cannot create '" ++ t.name ++ "' instances"))

end Value

end EntityGraph
