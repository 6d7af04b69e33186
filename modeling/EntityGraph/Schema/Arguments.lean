import EntityGraph.Scalar.Registry

/-!
# Arguments of queries and fields

A query or a field may take arguments. Their shape is a dictionary of defaults, each of which gives
its argument a type, or a class whose fields are the arguments. Binding turns the raw arguments of a
request into one value of that shape, a dictionary in the order of the defaults or an instance:
every raw value is translated by the scalar of its argument's type, a missing value stays missing,
and what was not supplied takes its default.
-/

namespace EntityGraph

/-- Texts in the order of their code points. -/
def sortedNames (names : List String) : List String :=
  names.mergeSort fun a b => a ≤ b

namespace ArgShape

/-- The shape that a value describes: the missing value none, a dictionary the defaults in it, a
declared class its fields. -/
def ofValue : Value → ArgShape
  | .none => none
  | .type (.declared c) => fieldsOf c
  | .dict es => defaults es
  | v => unsupported v

/-- Whether a class can describe arguments: it has fields of its own. -/
def hasFields (w : World) (className : String) : Bool :=
  match w.classes.kindOf className with
  | .record | .namedTuple => true
  | _ => false

/-- The type of the values of a class member. -/
def hintedHost (w : World) (className : String) (m : MemberDecl) : HostType :=
  (((w.classes.allMembers className).find? (·.name == m.name)).getD m).hint.ofMember.memberType.host

/-- The host type of each argument, in declaration order. -/
def types (w : World) : ArgShape → Outcome (List (Value × HostType))
  | none => .ok []
  | defaults es => .ok (es.map fun (n, v) => (n, v.typeIn w))
  | fieldsOf c =>
    if hasFields w c then .ok ((w.classes.fields c).map fun m => (.str m.name, hintedHost w c m))
    else .error (.badShape (.type (.declared c)))
  | unsupported v => .error (.badShape v)

/-- The arguments without a default. -/
def required (w : World) : ArgShape → List String
  | fieldsOf c => ((w.classes.fields c).filter (·.default.isNone)).map (·.name)
  | _ => []

/-- The host type of the argument with a name. -/
def typeOf? (types : List (Value × HostType)) (name : String) : Option HostType :=
  (types.find? (·.1.text? == some name)).map (·.2)

/-- Fails if raw arguments have names that are not declared, or lack one that is required. -/
def check (w : World) (shape : ArgShape) (types : List (Value × HostType))
    (raw : List (String × Value)) : Outcome Unit :=
  let unexpected := (raw.map (·.1)).filter fun n => (typeOf? types n).isNone
  let missing := (shape.required w).filter fun n => !raw.any (·.1 == n)
  if !unexpected.isEmpty then
    .error (.unexpectedArguments (sortedNames unexpected) (types.map (·.1)))
  else if !missing.isEmpty then .error (.missingArguments (sortedNames missing))
  else .ok ()

/-- The host value of a raw argument. -/
def bindOne (w : World) (r : Registry) (types : List (Value × HostType)) (name : String)
    (raw : Value) : Making Value :=
  if raw.isNone then pure .none
  else r.translateAs w ((typeOf? types name).getD default) raw

/-- The value of this shape for bound arguments. -/
def build (w : World) (shape : ArgShape) (bound : List (String × Value)) : Making Value :=
  match shape with
  | fieldsOf c => Value.makeInstance w c bound
  | defaults es =>
    Value.owned (.ofEntries (es.map fun (n, v) =>
      (n, (n.text?.bind fun m => bound.lookup m).getD v)))
  | _ => return .none

/-- The value of this shape that raw arguments stand for. -/
def bind (w : World) (r : Registry) (shape : ArgShape) (raw : List (String × Value)) :
    Making Value := do
  match shape with
  | none =>
    if raw.isEmpty then return .none
    else throw (.argumentsGiven (sortedNames (raw.map (·.1))))
  | shape =>
    let types ← shape.types w
    shape.check w types raw
    let bound ← raw.mapM fun (n, v) => do return (n, ← bindOne w r types n v)
    shape.build w bound

end ArgShape

end EntityGraph
