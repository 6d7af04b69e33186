import EntityGraph.Value.Construct
import EntityGraph.Value.TextMethod

/-!
# Methods of values

The methods that queries call on plain data, those that declared classes have, and the few that the
descriptions of a schema offer. A method of a class takes the instance as its first argument.
-/

namespace EntityGraph

namespace Value

/-- The place of the first element that is the same as a value. -/
def findSame (w : World) (v : Value) : Nat → List Value → Outcome (Option Nat)
  | _, [] => .ok Option.none
  | i, u :: us => do
    if ← same w u v then .ok (some i) else findSame w v (i + 1) us

/-- The number of elements that are the same as a value. -/
def countSame (w : World) (v : Value) (vs : List Value) : Outcome Nat :=
  vs.foldlM (fun n u => do if ← same w u v then .ok (n + 1) else .ok n) 0

/-- Where a value stands among elements; `absent` is the fault of its standing nowhere. -/
def indexMethod (w : World) (absent : Value → Outcome Fault) (vs args : List Value) :
    Outcome Value :=
  match args with
  | [] => .error (.expected "index" 1 3 0)
  | v :: bounds => do
    if bounds.length > 2 then .error (.expected "index" 1 3 args.length)
    else
      let (part, before) ← sliceArguments false vs bounds
      match ← findSame w v before (part.getD []) with
      | some i => .ok (int i)
      | Option.none => .error (← absent v)

/-- A method of a list. -/
def listMethod (w : World) (vs : List Value) (name : String) (args : List Value) : Outcome Value :=
  let absent := fun (v : Value) => do
    .ok (.host .wrongValue ((← v.tellShown w) ++ " is not in list"))
  match name, args with
  | "index", args => indexMethod w absent vs args
  | "count", [v] => do .ok (int (← countSame w v vs))
  | "copy", [] => .ok (list vs)
  | "count", _ => .error (.takesOne "list.count" args.length)
  | "copy", _ => .error (.takesNone "list.copy" args.length)
  | name, _ => .error (.notModelled name)

/-- A method of a tuple of a class with this name. -/
def tupleMethod (w : World) (className : String) (vs : List Value) (name : String)
    (args : List Value) : Outcome Value :=
  let absent := fun (_ : Value) => .ok (.host .wrongValue "tuple.index(x): x not in tuple")
  match name, args with
  | "index", args => indexMethod w absent vs args
  | "count", [v] => do .ok (int (← countSame w v vs))
  | "count", _ => .error (.takesOne (className ++ ".count") args.length)
  | name, _ => .error (.notModelled name)

/-- A method of a dictionary; `remake` makes a dictionary of its sort. -/
def dictMethod (w : World) (remake : List (Value × Value) → Value) (es : List (Value × Value))
    (name : String) (args : List Value) : Outcome Value :=
  match name, args with
  | "get", [k] => do .ok ((← entry? w es k).getD none)
  | "get", [k, d] => do .ok ((← entry? w es k).getD d)
  | "get", _ => .error (.expected "get" 1 2 args.length)
  | "copy", [] => .ok (remake es)
  | "keys", [] => .ok (ofClass .keysView)
  | "values", [] => .ok (ofClass .valuesView)
  | "items", [] => .ok (ofClass .itemsView)
  | name, _ => .error (.notModelled name)

/-- A method of a date, for which a timestamp stands too. -/
def dateMethod (d : Calendar.Date) (name : String) : Outcome Value :=
  let ordinal := d.toOrdinal
  match name with
  | "isoformat" => .ok (str d.text)
  | "toordinal" => .ok (int ordinal)
  | "weekday" => .ok (int ((ordinal + 6) % 7 : Nat))
  | "isoweekday" => .ok (int ((ordinal + 6) % 7 + 1 : Nat))
  | name => .error (.notModelled name)

/-- A method of a timestamp. -/
def timestampMethod (t : Calendar.Timestamp) (name : String) : Outcome Value :=
  match name with
  | "isoformat" => .ok (str (t.textWith "T"))
  | "date" => .ok (date t.date)
  | "utcoffset" =>
    t.offset.elim (.ok none) fun minutes => .ok (span (Calendar.Timestamp.offsetSpan minutes))
  | "dst" => .ok none
  | "tzname" => .ok (t.offset.elim none (str ∘ Calendar.Timestamp.zoneName))
  | name => dateMethod t.date name

/-- A method of a number. -/
def numberMethod (v : Value) (name : String) : Outcome Value :=
  match name, v.asInt?, v with
  | "conjugate", some n, _ | "numerator", some n, _ => .ok (int n)
  | "bit_length", some n, _ => .ok (int (if n == 0 then 0 else n.natAbs.log2 + 1 : Nat))
  | "conjugate", _, float x m => .ok (float x m)
  | "conjugate", _, complex z _ => .ok (ofComplexFloat ⟨z.re, -z.im⟩)
  | "is_integer", _, float x _ => .ok (bool (x.isFinite && x.floor == x))
  | name, _, _ => .error (.notModelled name)

/-- A method that takes no arguments. -/
def plainMethod (w : World) (v : Value) (name : String) (args : List Value) : Outcome Value :=
  if !args.isEmpty then .error (.takesNone (v.fullTypeName w ++ "." ++ name) args.length)
  else
    match v with
    | date d => dateMethod d name
    | timestamp t => timestampMethod t name
    | span s =>
      if name == "total_seconds" then
        .ok (ofFloat ((Number.divide s.micros Calendar.Span.perSecond).getD 0.0))
      else .error (.notModelled name)
    | v => numberMethod v name

/-- A date with other parts, from the year on. -/
def replaceDate (w : World) (d : Calendar.Date) (args : List Value) : Outcome Value :=
  if args.length > 3 then .error (.tooMany "replace" 3 args.length)
  else
    let parts : List Value := [d.year, d.month, d.day].map fun (n : Nat) => int n
    makeDate w (args ++ parts.drop args.length)

/-- A timestamp with other parts, from the year on. -/
def replaceTimestamp (w : World) (t : Calendar.Timestamp) (args : List Value) : Outcome Value :=
  if args.length > 8 then
    .error (.wrongType ("replace() takes at most 8 positional arguments ("
      ++ toString args.length ++ " given)"))
  else
    let numbers := [t.date.year, t.date.month, t.date.day, t.hour, t.minute, t.second, t.micro]
    let parts := numbers.map (fun (n : Nat) => int n) ++ [t.offset.elim none zone]
    makeTimestamp w (args ++ parts.drop args.length)

/-- A method of the description of a type, of a field, or of a schema. -/
def schemaMethod (w : World) (v : Value) (name : String) (args : List Value) : Outcome Value :=
  match v, name, args with
  | schema, "list_all_types", [] => .ok (list (w.schema.allTypes.map typeRef))
  | schema, "get_gql_type", [type t] => .ok (typeRef (w.schema.typeRefOf t))
  | schema, "find_query", [str n] =>
    .ok (if (w.schema.findQuery? n).isSome then foreign .query 0 else none)
  | typeRef (.declared i), "find_field", [str n] =>
    .ok (((w.schema.types.getD i default).fields.findIdx? (·.name == n)).elim none (fieldRef i))
  | typeRef _, "find_field", [_] => .ok none
  | _, name, _ => .error (.notModelled name)

/-- What a declared method gives back. -/
def reply (w : World) (self : Value) (args : List Value) : Reply → Outcome Value
  | .value v => .ok v.renewed
  | .attribute m => getAttr w self m
  | .arguments => .ok (list args)

/-- The name of the declared class of an instance. -/
def declaredClass? (w : World) : Value → Option String
  | object r =>
    match (w.object r).type with
    | .declared c => some c
    | _ => Option.none
  | _ => Option.none

/-- Calls a method of an instance of a built-in class. -/
def callOwn (w : World) (self : Value) (name : String) (args : List Value) : Outcome Value :=
  match self with
  | str s => textMethod w .text s.toList name args
  | bytes bs => textMethod w .bytes (Medium.charsOf bs) name args
  | list vs => listMethod w vs name args
  | dict es => dictMethod w dict es name args
  | orderedDict es _ => dictMethod w ofEntries es name args
  | record _ fs => dictMethod w ofEntries (entriesOf fs) name args
  | proxy u m => callProxyMethod w u m name args
  | schema | typeRef _ | fieldRef .. => schemaMethod w self name args
  | v =>
    match name, v with
    | "replace", date d => replaceDate w d args
    | "replace", timestamp t => replaceTimestamp w t args
    | name, v =>
      match v.tupleView? w with
      | some vs => tupleMethod w (v.fullTypeName w) vs name args
      | Option.none => plainMethod w v name args

/-- Whether a built-in class is the class of a value, or one behind it. -/
def isInstance (w : World) (v : Value) (b : Builtin) : Bool :=
  match b, v.typeIn w with
  | .int, .builtin .bool | .date, .builtin .timestamp | .dict, .builtin .orderedDict
  | .dict, .record _ | .orderedDict, .record _ => true
  | .tuple, t => t == .builtin .tuple || (v.tupleView? w).isSome
  | b, t => t == .builtin b

/-- Calls a method that a built-in class has for itself. -/
def callClassMethod (w : World) (b : Builtin) (name : String) (args : List Value) :
    Outcome Value :=
  match b, name, args with
  | .date, "fromordinal", [v] => Primitive.dateOfOrdinal w v
  | .timestamp, "fromordinal", [v] => do
    match ← Primitive.dateOfOrdinal w v with
    | date d => .ok (timestamp (.midnight d))
    | v => .ok v
  | _, "fromordinal", _ => .error (.takesOne name args.length)
  | _, name, _ => .error (.notModelled name)

/-- Calls a method of a built-in class with the instance as its first argument. -/
def callUnbound (w : World) (b : Builtin) (name : String) : List Value → Outcome Value
  | [] =>
    .error (.wrongType ("unbound method " ++ b.name ++ "." ++ name ++ "() needs an argument"))
  | self :: args =>
    if self.isInstance w b then
      match b, self.tupleView? w with
      | .tuple, some vs => tupleMethod w b.name vs name args
      | _, _ => callOwn w self name args
    else
      .error (.wrongType ("descriptor '" ++ name ++ "' for '" ++ b.fullName
        ++ "' objects doesn't apply to a '" ++ self.fullTypeName w ++ "' object"))

/-- Calls a method of a declared class with the instance as its first argument. -/
def callDeclared (w : World) (className name : String) (args : List Value) : Outcome Value :=
  match w.classes.attribute? className name, args with
  | some (.method r), self :: args => reply w self args r
  | some (.method _), [] => .error (.argumentCount (className ++ "." ++ name) ["self"] 0 0)
  | _, _ => .error (.notModelled name)

/-- Calls a method of a value. -/
def callMethod (w : World) (self : Value) (name : String) (args : List Value) : Outcome Value :=
  match self with
  | type (.builtin b) =>
    if Builtin.classMethods.contains name then callClassMethod w b name args
    else callUnbound w b name args
  | type (.declared c) => callDeclared w c name args
  | type (.record _) => callUnbound w .orderedDict name args
  | self =>
    match (self.declaredClass? w).bind fun c => w.classes.attribute? c name with
    | some (.method r) => reply w self args r
    | _ => callOwn w self name args

end Value

end EntityGraph
