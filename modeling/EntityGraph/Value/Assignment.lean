import EntityGraph.Making
import EntityGraph.Value.Attribute

/-!
# Assigning to attributes

Instances of declared classes, classes and functions take attributes. What a class has as a property
or as a field of a tuple cannot be assigned to on its instances, and some attributes take values of
one sort only. An instance can become one of another class if both are laid out alike. Expressions
take other values for their parts, and everything else, recording proxies above all, takes nothing.
-/

namespace EntityGraph

/-- How instances are laid out. Tuples that take further attributes are laid out alike only if the
same class was the first to let them. -/
structure Layout where
  isTuple : Bool
  takesAttributes : Bool
  extendedBy : Option String
  deriving DecidableEq

namespace Value

/-- How the instances of a class are laid out, if they can change their class. -/
def layout? (w : World) : HostType → Option Layout
  | .declared c =>
    let isTuple := fun (c : String) => w.classes.kindOf c == .namedTuple
    let extending := ((w.classes.lineage c).map (·.name)).filter fun d =>
      isTuple d && takesAttributes w d
    some ⟨isTuple c, takesAttributes w c, extending.getLast?⟩
  | .builtin .celsius => some ⟨false, true, Option.none⟩
  | _ => Option.none

/-- The fault of an attribute that cannot be set. -/
def unsettable : Fault := .host .missingAttribute "can't set attribute"

/-- The fault of an attribute that takes values of one sort only. -/
def wrongSort (name sort : String) : Fault := .wrongType (name ++ " must be set to " ++ sort)

/-- The fault of a class that cannot take the place of another. -/
def wrongClass : Fault := wrongSort classLabel "a class whose instances are laid out alike"

/-- The attributes that the entries of a dictionary are. -/
def attributesOf (es : List (Value × Value)) : List (String × Value) :=
  es.filterMap fun (k, v) => k.text?.map (·, v)

/-- The attributes that a value holds if it is a dictionary. -/
def attributesIn (v : Value) : Outcome (List (String × Value)) :=
  match v.entriesView? with
  | some (es, _) => .ok (attributesOf es)
  | Option.none => .error (wrongSort dictLabel "a dictionary")

/-- An object as one of another class. The elements of a tuple keep their places. -/
def retyped (w : World) (o : ObjectDecl) (t : HostType) : ObjectDecl :=
  match o.type, t with
  | .declared c, .declared d =>
    let renamed := ((w.classes.fields c).map (·.name)).zip ((w.classes.fields d).map (·.name))
    let rename := fun (n : String) => if isElement w c n then (renamed.lookup n).getD n else n
    ⟨t, o.attributes.map fun (n, v) => (rename n, v)⟩
  | _, _ => { o with type := t }

/-- Fails for a value that an attribute of a mapped class does not take: a relationship takes
objects of mapped classes only. -/
def ensureRelated (w : World) (className name : String) (v : Value) : Outcome Unit :=
  let isMapped := fun
    | object r => (w.classes.mappedBase? (w.className r)).isSome
    | _ => false
  match (w.classes.mappedBase? className).bind fun c => c.relationships.find? (·.name == name) with
  | Option.none => .ok ()
  | some r =>
    if r.isList then
      match v with
      | list vs => if vs.all isMapped then .ok () else .error unsettable
      | _ => .error (wrongSort name "a list")
    else if v.isNone || isMapped v then .ok ()
    else .error unsettable

/-- An object of a declared class with an attribute that is assigned to. -/
def withAttribute (w : World) (className : String) (o : ObjectDecl) (name : String) (v : Value) :
    Outcome ObjectDecl :=
  match w.classAttribute? className name with
  | some (.property _) | some .field => .error unsettable
  | _ =>
    if !takesAttributes w className || name == "__weakref__" then .error unsettable
    else if name == dictLabel then do
      let elements := o.attributes.filter fun (n, _) => isElement w className n
      .ok { o with attributes := elements ++ (← attributesIn v) }
    else do
      ensureRelated w className name v
      .ok (o.put name v)

/-- What has attributes with one that is assigned to, or with all of them at once. -/
def putAny (o : ObjectDecl) (name : String) (v : Value) : Outcome ObjectDecl :=
  if name == dictLabel then do .ok { o with attributes := ← attributesIn v }
  else .ok (o.put name v)

/-- An object with an attribute that is assigned to. -/
def assignedObject (w : World) (o : ObjectDecl) (name : String) (v : Value) : Outcome ObjectDecl :=
  if name == classLabel then
    match v with
    | type t =>
      if (layout? w t).isSome && layout? w o.type == layout? w t then .ok (retyped w o t)
      else .error wrongClass
    | _ => .error wrongClass
  else
    match o.type with
    | .declared c => withAttribute w c o name v
    | _ => putAny o name v

/-- The attributes of classes that cannot be assigned to. -/
def fixedOfType : List String :=
  [dictLabel, "__mro__", "__base__", "__basicsize__", "__itemsize__", "__flags__",
    "__weakrefoffset__", "__dictoffset__", "__text_signature__"]

/-- The attributes of functions that cannot be assigned to. -/
def fixedOfFunction : List String := ["__globals__", "__closure__", "__builtins__"]

/-- The attributes that name a class or a function. -/
def nameLabels : List String := ["__name__", "__qualname__"]

/-- Fails unless a value is of the sort that an attribute takes. -/
def ensureSort (name sort : String) (fits : Bool) : Outcome Unit :=
  if fits then .ok () else .error (wrongSort name sort)

/-- Fails if a class does not take a value as an attribute. Those that come with the host take
none. -/
def ensureTypeTakes (t : HostType) (name : String) (v : Value) : Outcome Unit :=
  let isFixed : Bool := match t with
    | .builtin b => b != .celsius && b != .proxy
    | _ => false
  if isFixed then
    .error (.wrongType ("cannot set '" ++ name ++ "' attribute of immutable type '" ++ t.fullName
      ++ "'"))
  else if nameLabels.contains name then ensureSort name "a text" v.text?.isSome
  else if [classLabel, "__bases__"].contains name then .error wrongClass
  else if fixedOfType.contains name then .error unsettable
  else .ok ()

/-- Fails if a function does not take a value as an attribute. -/
def ensureFunctionTakes (name : String) (v : Value) : Outcome Unit :=
  let isDict := v.entriesView?.isSome
  if nameLabels.contains name then ensureSort name "a text" v.text?.isSome
  else if ["__kwdefaults__", "__annotations__"].contains name then
    ensureSort name "a dictionary" (isDict || v.isNone)
  else if name == "__defaults__" then
    ensureSort name "a tuple" (v.isNone || v matches tuple _)
  else if [classLabel, "__code__"].contains name then .error wrongClass
  else if fixedOfFunction.contains name then .error unsettable
  else .ok ()

/-- Fails if a value other than an object does not take a value as an attribute. -/
def ensureTakes (w : World) (target : Value) (name : String) (v : Value) : Outcome Unit :=
  match target with
  | type t => ensureTypeTakes t name v
  | function .. | closure .. | method (type (.declared _)) _ => ensureFunctionTakes name v
  | supplied _ | record .. | schema => .ok ()
  | uuid _ => .error (.wrongType "UUID objects are immutable")
  | target =>
    if name == classLabel then .error wrongClass
    else
      match target with
      | orderedDict .. => .ok ()
      | expr e _ => if takesPart e name then .ok () else .error (noAttribute w target name)
      | target => .error (noAttribute w target name)

/-- Assigns to an attribute of a value. -/
def assign (w : World) (target : Value) (name : String) (v : Value) : Making Unit := do
  let w ← Making.now w
  match target with
  | proxy .. => throw (.proxyAssignment name)
  | object r => do Making.put r (← assignedObject w (w.object r) name v)
  | target =>
    ensureTakes w target name v
    let o ← putAny ((target.ref? w).elim default w.object) name v
    if let some r := target.ref? w then Making.put r o

end Value

end EntityGraph
