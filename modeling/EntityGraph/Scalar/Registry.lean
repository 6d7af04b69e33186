import EntityGraph.Script.Run

/-!
# Scalars

A scalar is carried on the wire as one of four kinds of raw values and is translated into a host
value. Every schema starts with scalars for texts, doubles and truth values, and then gets those for
UUIDs, for numbers of single precision and for integers of 32 bits.

Names of scalars are unique. Several scalars may produce one host type; the first of them is the one
that translates arguments of that type.
-/

namespace EntityGraph

namespace WireKind

/-- Checks that a raw value is of a kind, and widens an integer that stands for a number. Truth
values are no numbers. -/
def coerce (kind : WireKind) (raw : Value) : Outcome Value :=
  match kind, raw with
  | string, .str s => .ok (.str s)
  | integer, .int n => .ok (.int n)
  | float, .int n => do .ok (.ofFloat (← Value.toFloat n))
  | float, .float x mark => .ok (.float x mark)
  | boolean, .bool b => .ok (.bool b)
  | kind, raw => .error (.wireValue kind raw)

end WireKind

namespace ScalarEntry

/-- The host type that a translator says it produces: a class produces its instances. -/
def producedBy : Value → Option HostType
  | .type t => some t
  | .primitive p => p.resultType?
  | _ => none

/-- A scalar. A host type that is not given is taken from the translator, and a name that is not
given from the host type. -/
def make (kind : WireKind) (translate : Value) (name : Option String) (host : Option HostType)
    (description : String) : Outcome ScalarEntry :=
  match host.or (producedBy translate), name with
  | some host, name =>
    .ok { name := name.getD host.name, kind, host, translate, description }
  | none, some name => .ok { name, kind, host := .builtin .object, translate, description }
  | none, none => .error (.scalarHost translate)

/-- The host value of a raw value. -/
def translateRaw (w : World) (e : ScalarEntry) (raw : Value) : Making Value := do
  Value.call w e.translate [← e.kind.coerce raw]

end ScalarEntry

/-- The scalars of a schema, in the order in which they were added. -/
abbrev Registry := List ScalarEntry

/-- Changes to a registry that may fail; what was added before a failure stays. -/
abbrev Registering := ExceptT Fault (StateM Registry)

namespace Registry

/-- A scalar whose host values stand for themselves on the wire. -/
def plainEntry (name : String) (kind : WireKind) (host : Builtin) : ScalarEntry :=
  { name, kind, host := .builtin host, translate := .type (.builtin host), description := "" }

/-- The scalars that are always there. -/
def start : Registry :=
  [plainEntry "String" .string .str, plainEntry "Float" .float .float,
    plainEntry "Boolean" .boolean .bool]

/-- The scalar with a name. -/
def findName? (r : Registry) (name : String) : Option ScalarEntry :=
  r.find? (·.name == name)

/-- The first scalar that produces exactly a host type. -/
def findHost? (r : Registry) (host : HostType) : Option ScalarEntry :=
  r.find? (·.host == host)

/-- A registry with one more scalar. -/
def insert (r : Registry) (e : ScalarEntry) : Outcome Registry :=
  if (r.findName? e.name).isSome then .error (.scalarExists e.name) else .ok (r ++ [e])

/-- Adds a scalar, whose name must be new. -/
def add (e : ScalarEntry) : Registering Unit := do
  match (← get).insert e with
  | .ok r => set r
  | .error f => throw f

/-- Makes a scalar and adds it. -/
def addNew (kind : WireKind) (translate : Value) (name : Option String) (host : Option HostType)
    (description : String) : Registering ScalarEntry := do
  let e ← ExceptT.mk (pure (ScalarEntry.make kind translate name host description))
  add e
  return e

/-- Adds the scalars that every schema gets. -/
def addDefaults : Registering Unit := do
  let _ ← addNew .string (.primitive .parseUuid) none none ""
  let _ ← addNew .float (.primitive .narrowFloat) (some "Float32") none ""
  let _ ← addNew .integer (.primitive .narrowInt) (some "Int") none ""

/-- The scalars of a new schema. -/
def standard : Registry := (addDefaults.run.run start).2

/-- The value of a host type that a raw value stands for; without a scalar for that type, the raw
value itself. -/
def translateAs (w : World) (r : Registry) (host : HostType) (raw : Value) : Making Value :=
  match r.findHost? host with
  | some e => e.translateRaw w raw
  | none => pure raw

end Registry

end EntityGraph
