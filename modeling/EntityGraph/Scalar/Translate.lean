import EntityGraph.Making
import EntityGraph.Value.Attribute
import EntityGraph.Calendar.Reading

/-!
# Functions that come with the library

Among them are the translators of the scalars that every schema has, and the usual ones for dates
and timestamps: each turns a raw value from the wire into a host value, and refuses what would lose
information.
-/

namespace EntityGraph

namespace Primitive

/-- The text that a function needs. -/
def needText (w : World) (v : Value) : Outcome String :=
  match v with
  | .str s => .ok s
  | v => .error (.wrongType ("argument must be str, not " ++ v.fullTypeName w))

/-- A timestamp read from a text. -/
def readTime (w : World) (v : Value) : Outcome (String × Calendar.Timestamp) := do
  let s ← needText w v
  match Calendar.Timestamp.read s with
  | .ok t => .ok (s, t)
  | .error .malformed => .error (.host .wrongValue "invalid timestamp")
  | .error .afterLastDay => .error (.host .overflow "date value out of range")

/-- The date that a text writes; a time of day or a zone would be lost. -/
def readDate (w : World) (v : Value) : Outcome Value := do
  let (s, t) ← readTime w v
  if t.isDate then .ok (.date t.date) else .error (.timeInDate s t)

/-- The timestamp that a text writes; a zone would be lost. -/
def readTimestamp (w : World) (v : Value) : Outcome Value := do
  let (s, t) ← readTime w v
  if t.offset.isNone then .ok (.timestamp t) else .error (.zoneInTimestamp s t)

/-- The UUID that a text writes. -/
def readUuid (w : World) (v : Value) : Outcome Value :=
  match v with
  | .str s =>
    match Uuid.ofText? s with
    | some u => .ok (.uuid u)
    | none => .error (.host .wrongValue "badly formed hexadecimal UUID string")
  | .none =>
    .error (.wrongType
      "one of the hex, bytes, bytes_le, fields, or int arguments must be given")
  | .bytes _ => .error (.wrongType "a bytes-like object is required, not 'str'")
  | .date _ | .timestamp _ => .error (.notInteger "str")
  | .proxy .. => .error .proxyTruth
  | v => .error (Value.noAttribute w v "replace")

/-- An integer in the range of 32 bits with a sign that agrees with it in its last 32 bits. -/
def narrowToInt32 (n : Int) : Int :=
  (n + Number.twoTo 31).emod (Number.twoTo 32) - Number.twoTo 31

/-- A number narrowed to 32 bits. -/
def narrowed (w : World) (v : Value) : Outcome Value :=
  match v.asInt? with
  | some n => .ok (.int (narrowToInt32 n))
  | none => do
    let shifted ← Value.operate w .add v (.int (Number.twoTo 31))
    let wrapped ← Value.operate w .mod shifted (.int (Number.twoTo 32))
    Value.operate w .sub wrapped (.int (Number.twoTo 31))

/-- A number rounded to single precision. -/
def rounded (v : Value) : Outcome Value :=
  match v.realPart? with
  | .ok (some x) => .ok (.ofFloat (Number.toSingle x))
  | _ => .error (.host .layout "required argument is not a float")

/-- A sequence backwards; of a recording proxy, the record of reading it so. -/
def reversed (w : World) (v : Value) : Outcome Value :=
  match v with
  | .str s => .ok (.str (String.ofList s.toList.reverse))
  | .list vs => .ok (.list vs.reverse)
  | .bytes bs => .ok (.bytes bs.reverse)
  | .dict _ | .orderedDict .. | .record .. => .error (.wrongType "unhashable type: 'slice'")
  | v =>
    match v.tupleView? w with
    | some vs => .ok (.tuple vs.reverse)
    | none => v.readItem w (.ofClass .slice)

/-- The day with a number. -/
def dateOfOrdinal (w : World) (v : Value) : Outcome Value :=
  match v.asInt? with
  | some n =>
    if n < -Number.twoTo 31 || Number.twoTo 31 ≤ n then
      .error (.host .overflow "day number too large")
    else
      match (if n < 0 then none else Calendar.Date.ofOrdinal? n.toNat) with
      | some d => .ok (.date d)
      | none => .error (.host .wrongValue "ordinal out of range")
  | none => .error (.notInteger (v.fullTypeName w))

/-- The size of a number or of a span without its sign. -/
def absolute (w : World) (v : Value) : Outcome Value :=
  match v with
  | .float x _ => .ok (.ofFloat x.abs)
  | .decimal d _ => Value.ofDecimal d.abs
  | .complex z _ =>
    z.abs?.elim (.error (.host .overflow "absolute value too large")) (.ok <| .ofFloat ·)
  | .span s => Value.spanOf s.micros.natAbs
  | v =>
    match v.asInt? with
    | some n => .ok (.int n.natAbs)
    | none => .error (.wrongType ("bad operand type for abs(): '" ++ v.fullTypeName w ++ "'"))

/-- The sum of a sequence and a start. Texts and bytes are no start: they are to be joined. -/
def total (w : World) (vs : List Value) (start : Value) : Outcome Value :=
  match start with
  | .str _ => .error (.wrongType "sum() can't sum strings [use ''.join(seq) instead]")
  | .bytes _ => .error (.wrongType "sum() can't sum bytes [use b''.join(seq) instead]")
  | start => vs.foldlM (Value.operate w .add) start

/-- The first of the greatest elements of a sequence. -/
def greatest (w : World) (vs : List Value) : Outcome Value :=
  match vs with
  | [] => .error (.host .wrongValue "max() arg is an empty sequence")
  | v :: vs => vs.foldlM (fun best v => do
      if ← Value.truth w (← Value.operate w .gt v best) then .ok v else .ok best) v

/-- What a function gives for one argument. -/
def applyOne (w : World) (p : Primitive) (v : Value) : Making Value :=
  match p with
  | len | length => do return .int (← v.length w)
  | abs => Value.own (absolute w v)
  | sum => do Value.own (total w (← v.elements w) (.int 0))
  | max => do Value.own (greatest w (← v.elements w))
  | parseDate => Value.own (readDate w v)
  | parseTimestamp => Value.own (readTimestamp w v)
  | parseUuid => Value.own (readUuid w v)
  | narrowInt => Value.own (narrowed w v)
  | narrowFloat => Value.own (rounded v)
  | reverse | reverseStr | reverseQuoted => Value.own (reversed w v)
  | negate => do return .bool (!(← v.truth w))
  | double => Value.own (Value.operate w .mul v (.int 2))
  | toDateOrdinal => Value.own (dateOfOrdinal w v)
  | toCelsius => Value.makeCelsius v
  | listify => return .list [v]
  | fail => throw (.host .wrongValue "no value")

/-- The fault of calling a function with another number of arguments than it takes. -/
def wrongCount (p : Primitive) (given : Nat) : Fault :=
  let count := toString given
  match p with
  | len | abs => .wrongType (p.name ++ "() takes exactly one argument (" ++ count ++ " given)")
  | sum =>
    if given == 0 then .wrongType "sum() takes at least 1 positional argument (0 given)"
    else .tooMany "sum" 2 given
  | max => .expected "max" 1 2 given
  | p => Fault.argumentCount p.name ["value"] 0 given

/-- What a function gives for its arguments. -/
def apply (w : World) (p : Primitive) (args : List Value) : Making Value :=
  match p, args with
  | p, [v] => p.applyOne w v
  | sum, [v, start] => do Value.own (total w (← v.elements w) start)
  | max, u :: v :: rest => Value.own (greatest w (u :: v :: rest))
  | p, args => throw (p.wrongCount args.length)

/-- The number of positional arguments of a function, if it says so. -/
def arity? : Primitive → Option Nat
  | max => none
  | sum => some 2
  | _ => some 1

/-- The class of the results of a function, if it says so. -/
def resultType? : Primitive → Option HostType
  | parseDate | toDateOrdinal => some (.builtin .date)
  | parseTimestamp => some (.builtin .timestamp)
  | parseUuid => some (.builtin .uuid)
  | narrowInt | length => some (.builtin .int)
  | narrowFloat => some (.builtin .float)
  | reverseStr => some (.builtin .str)
  | negate => some (.builtin .bool)
  | toCelsius => some (.builtin .celsius)
  | fail => some (.builtin .bytes)
  | len | abs | sum | max | reverse | reverseQuoted | double | listify => none

end Primitive

end EntityGraph
