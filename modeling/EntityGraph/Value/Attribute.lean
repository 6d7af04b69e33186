import EntityGraph.Host.Method
import EntityGraph.Value.Recording

/-!
# Attributes of values

Reading an attribute of an instance asks its class for a property first, then the instance itself,
then its class for a method or a default. Plain data has a few attributes and the methods of its
class. A record offers the attributes of its class before its own entries. A class offers what it
has for its instances: the methods, which then take the instance first, and the defaults.
-/

namespace EntityGraph

namespace Value

/-- The fault of reading an attribute that is not there. -/
def noAttribute (w : World) (v : Value) (name : String) : Fault :=
  .host .missingAttribute ("'" ++ v.typeName w ++ "' object has no attribute '" ++ name ++ "'")

/-- The attributes of classes of times that are data: the least and the greatest value, and the
distance between two neighbours. -/
def timeAttribute? (b : Builtin) (name : String) : Option Value :=
  let first : Calendar.Date := ⟨1, 1, 1⟩
  let last : Calendar.Date := ⟨9999, 12, 31⟩
  let widest : Calendar.Span := ⟨(Calendar.Span.dayLimit + 1) * Calendar.Span.perDay - 1⟩
  match b, name with
  | .date, "min" => some (date first)
  | .date, "max" => some (date last)
  | .date, "resolution" => some (span ⟨Calendar.Span.perDay⟩)
  | .timestamp, "min" => some (timestamp (.midnight first))
  | .timestamp, "max" => some (timestamp ⟨last, 23, 59, 59, 999999, Option.none⟩)
  | .span, "min" => some (span ⟨-(Calendar.Span.dayLimit * Calendar.Span.perDay)⟩)
  | .span, "max" => some (span widest)
  | .timestamp, "resolution" | .span, "resolution" => some (span ⟨1⟩)
  | .zone, "utc" => some (zone 0)
  | .zone, "min" => some (zone (-1439))
  | .zone, "max" => some (zone 1439)
  | _, _ => Option.none

/-- The attributes of UUIDs. -/
def uuidAttribute? (u : Uuid) (name : String) : Option Value :=
  let ofHex := fun (digits : String) => bytes (Text.bytesOfHex digits.toList)
  let number := fun (n : Nat) => int n
  match name with
  | "int" => some (number u.value)
  | "hex" => some (str u.hex)
  | "urn" => some (str ("urn:uuid:" ++ u.text))
  | "bytes" => some (ofHex u.hex)
  | "bytes_le" => some (ofHex u.littleHex)
  | "fields" => some (tuple (u.fields.map fun (_, n) => number n))
  | "variant" => some (str u.variant)
  | "version" => some (u.version?.elim none number)
  | "is_safe" => some (ofClass .safeUuid)
  | "__module__" => some (str "uuid")
  | name => ((u.fields ++ u.joined).lookup name).map number

/-- The attributes of numbers, times and UUIDs that are data. -/
def dataAttribute? (v : Value) (name : String) : Option Value :=
  match v, name with
  | float x mark, "real" => some (float x mark)
  | decimal d mark, "real" => some (decimal d mark)
  | decimal .., "imag" => some (ofDecimalFloat (.ofInt 0))
  | complex z _, "real" => some (ofFloat z.re)
  | complex z _, "imag" => some (ofFloat z.im)
  | float _ _, "imag" => some (ofFloat 0.0)
  | date d, "year" => some (int d.year)
  | date d, "month" => some (int d.month)
  | date d, "day" => some (int d.day)
  | timestamp t, "year" => some (int t.date.year)
  | timestamp t, "month" => some (int t.date.month)
  | timestamp t, "day" => some (int t.date.day)
  | timestamp t, "hour" => some (int t.hour)
  | timestamp t, "minute" => some (int t.minute)
  | timestamp t, "second" => some (int t.second)
  | timestamp t, "microsecond" => some (int t.micro)
  | timestamp t, "tzinfo" => some (t.offset.elim none zone)
  | span s, "days" => some (int s.days)
  | span s, "seconds" => some (int s.seconds)
  | span s, "microseconds" => some (int s.microseconds)
  | timestamp _, "fold" => some (int 0)
  | uuid u, name => uuidAttribute? u name
  | decimal .., "__module__" => some (str "decimal")
  | v, "real" | v, "numerator" => v.asInt?.map int
  | v, "imag" => v.asInt?.map fun _ => int 0
  | v, "denominator" => v.asInt?.map fun _ => int 1
  | _, _ => Option.none

/-- The class of the records of an entity type, or of the values of a scalar. -/
def projectionType (t : TypeDecl) : Value :=
  match t.projection with
  | Option.none => none
  | some (.host h) => type h
  | some (.record ..) => type (.record t.name)

/-- The attributes of the description of a type. -/
def typeAttribute? (w : World) (r : TypeRef) (name : String) : Option Value :=
  let t := w.schema.resolve r
  let refs := fun (keep : FieldDecl → Bool) =>
    match r with
    | .declared i =>
      list (((List.range t.fields.length).filter fun j => (t.fields[j]?).any keep).map (fieldRef i))
    | _ => list []
  match name with
  | "host_type" => some (type t.host)
  | "name" => some (str t.name)
  | "description" => some (str t.description)
  | "is_scalar" => some (bool t.isScalar)
  | "kind" => some (str t.kindName)
  | "fields" => some (refs fun _ => true)
  | "pre_fields" => some (refs (!·.isPost))
  | "post_fields" => some (refs (·.isPost))
  | "projection_type" => some (projectionType t)
  | "find_field" => some (method (typeRef r) name)
  | _ => Option.none

/-- An argument shape as a value. -/
def shapeValue : ArgShape → Value
  | .none => none
  | .defaults es => dict es
  | .fieldsOf c => type (.declared c)
  | .unsupported v => v

/-- The attributes of the description of a field. -/
def fieldAttribute? (w : World) (t i : Nat) (name : String) : Option Value :=
  let f := (w.schema.types.getD t default).fields.getD i default
  match name with
  | "name" => some (str f.name)
  | "description" => some (str f.description)
  | "field_host_type" => some (type f.host)
  | "is_list" => some (bool f.isList)
  | "is_post" => some (bool f.isPost)
  | "args_shape" => some (shapeValue f.shape)
  | "type" => some (typeRef (w.schema.typeRefOf f.host))
  | "get_expression" | "compute_post_value" => some (method (fieldRef t i) name)
  | _ => Option.none

/-- The attributes of a schema. -/
def schemaAttribute? (w : World) (name : String) : Option Value :=
  match name with
  | "types" => some (list ((List.range w.schema.types.length).map (typeRef ∘ .declared)))
  | "queries" => some (list (w.schema.queries.map fun _ => foreign .query 0))
  | "completed" => some (bool w.schema.completed)
  | "context_parameter" => some (ofTree (.param w.schema.context))
  | "list_all_types" | "find_query" | "get_gql_type" => some (method schema name)
  | _ => Option.none

/-- The functions that a record class has for the host to call, such as those that compare records
and count their entries. -/
def recordProtocol : List String :=
  ["__class_getitem__", "__contains__", "__delattr__", "__delitem__", "__dir__", "__eq__",
    "__format__", "__ge__", "__getattr__", "__getattribute__", "__getitem__", "__getstate__",
    "__gt__", "__init__", "__init_subclass__", "__ior__", "__iter__", "__le__", "__len__",
    "__lt__", "__ne__", "__new__", "__or__", "__reduce__", "__reduce_ex__", "__repr__",
    "__reversed__", "__ror__", "__setattr__", "__setitem__", "__sizeof__", "__str__",
    "__subclasshook__"]

/-- The functions that a record has by its class. -/
def recordMethods : List String :=
  "set_post_field" :: Builtin.methods .orderedDict ++ recordProtocol

/-- What a record class declares about itself: the members of its records and the name of its
type. -/
def recordDeclared : List String := ["members", "post_members", "entity_type_name"]

/-- The attributes of the class of a record, which hide its entries: those that were assigned to it
before those that it comes with. -/
def recordAttribute? (w : World) (typeName : String) (self : Value) (name : String) :
    Option Value :=
  let offered := match name with
    | "entity_type_name" => some (str typeName)
    | "members" => some (ofClass .mappingProxy)
    | "post_members" => some (ofClass .frozenSet)
    | "__annotations__" => some (dict (recordDeclared.map fun n => (str n, ofClass .hintAlias)))
    | "__doc__" | "__hash__" => some none
    | "__module__" => (HostType.record typeName).home.map str
    | name => if recordMethods.contains name then some (method self name) else Option.none
  (w.assigned? (.type (.record typeName)) name).or offered

/-- What reading a property gives; `read` reads another attribute of the instance. -/
def propertyReply (read : String → Outcome Value) (p : PropertyDecl) : Outcome Value :=
  match p.reply with
  | some (.value v) => .ok v.renewed
  | some (.attribute m) => read m
  | some .arguments => .ok (list [])
  | Option.none => .error (.host .missingAttribute "unreadable attribute")

/-- The value that a mapped class gives an attribute that is not set. -/
def mappedDefault? (w : World) (className name : String) : Option Value :=
  (w.classes.mappedBase? className).bind fun c =>
    match c.relationships.find? (·.name == name) with
    | some r => some (if r.isList then list [] else none)
    | Option.none => (c.columns.lookup name).map fun _ => none

/-- The name under which an instance offers its attributes as a dictionary. -/
def dictLabel : String := "__dict__"

/-- The name under which a value offers its class. -/
def classLabel : String := "__class__"

/-- The name under which a class and its instances offer the name of their module. -/
def moduleLabel : String := "__module__"

/-- Whether the instances of a class take attributes: all but those of a named tuple itself. -/
def takesAttributes (w : World) (className : String) : Bool :=
  (w.classes.find? className).all (·.kind != .namedTuple)

/-- Whether instances of a class have a field as an element. -/
def isElement (w : World) (className name : String) : Bool :=
  w.classes.kindOf className == .namedTuple
    && (w.classes.fields className).any (·.name == name)

/-- The attributes of an instance of a class, the elements of a tuple apart. -/
def ownAttributes (w : World) (className : String) (attributes : List (String × Value)) :
    List (String × Value) :=
  attributes.filter fun (n, _) => !isElement w className n

/-- What an instance offers by itself under a name: an attribute that was set, or all of them. -/
def ownAttribute? (w : World) (className : String) (attributes : List (String × Value))
    (name : String) : Option Value :=
  let own := ownAttributes w className attributes
  if name == dictLabel && takesAttributes w className then some (dict (entriesOf own))
  else (own.lookup name).or (mappedDefault? w className name)

/-- The names of the elements of a class of tuples, which it and its instances offer. -/
def elementNames? (w : World) (className name : String) : Option Value :=
  if name == "_fields" && w.classes.kindOf className == .namedTuple then
    some (tuple ((w.classes.fields className).map (str ·.name)))
  else Option.none

/-- What an instance has under a name without its class declaring it. -/
def inheritedAttribute? (w : World) (self : Value) (className name : String) : Option Value :=
  if w.classes.kindOf className == .namedTuple && (Builtin.methods .tuple).contains name then
    some (method self name)
  else if let some names := elementNames? w className name then some names
  else if name == moduleLabel then (HostType.declared className).home.map str
  else Option.none

/-- Reading an attribute of an instance of a declared class, with a bound on the properties that
refer to other attributes. -/
def instanceAttribute (w : World) (self : Value) (className : String)
    (attributes : List (String × Value)) : Nat → String → Outcome Value
  | 0, _ => .error (.host .tooDeep "maximum recursion depth exceeded")
  | depth + 1, name =>
    let orAbsent := fun (v : Option Value) => v.elim (.error (noAttribute w self name)) .ok
    match w.classAttribute? className name with
    | some (.property p) => propertyReply (instanceAttribute w self className attributes depth) p
    | some .field =>
      orAbsent (((w.classes.fields className).find? (·.name == name)).bind
        (w.fieldValue? className attributes))
    | offered =>
      match ownAttribute? w className attributes name, offered with
      | some v, _ => .ok v
      | Option.none, some (.default v) => .ok v
      | Option.none, some _ => .ok (method self name)
      | Option.none, Option.none => orAbsent (inheritedAttribute? w self className name)

/-- The built-in class that plain data is of. -/
def builtin? (w : World) (v : Value) : Option Builtin :=
  match v.typeIn w with
  | .builtin b => some b
  | _ => Option.none

/-- Reading an attribute of plain data. -/
def plainAttribute (w : World) (v : Value) (name : String) : Outcome Value :=
  let offered := (v.builtin? w).bind fun b =>
    if b.methods.contains name then some (method v name) else timeAttribute? b name
  match (dataAttribute? v name).or offered with
  | some u => .ok u
  | Option.none => .error (noAttribute w v name)

/-- The attributes of instances of a built-in class that the class describes, by the class of the
descriptions. -/
def descriptions : Builtin → List (Builtin × List String)
  | .int | .bool => [(.getSetDescriptor, ["real", "imag", "numerator", "denominator"])]
  | .float | .decimal => [(.getSetDescriptor, ["real", "imag"])]
  | .complex => [(.memberDescriptor, ["real", "imag"])]
  | .date => [(.getSetDescriptor, ["year", "month", "day"])]
  | .timestamp =>
    [(.getSetDescriptor,
      ["year", "month", "day", "hour", "minute", "second", "microsecond", "tzinfo", "fold"])]
  | .span => [(.memberDescriptor, ["days", "seconds", "microseconds"])]
  | .uuid =>
    let computed := ["hex", "urn", "bytes", "bytes_le", "fields", "variant", "version"]
    let numbers := (Uuid.mk 0).fields ++ (Uuid.mk 0).joined
    [(.memberDescriptor, ["int", "is_safe"]), (.property, computed ++ numbers.map (·.1))]
  | _ => []

/-- An attribute of a built-in class. -/
def builtinAttribute? (b : Builtin) (name : String) : Option Value :=
  if b.methods.contains name then some (method (type (.builtin b)) name)
  else
    match (descriptions b).find? fun (_, names) => names.contains name with
    | some (description, _) => some (ofClass description)
    | Option.none => timeAttribute? b name

/-- An attribute of a declared class. -/
def declaredAttribute? (w : World) (className name : String) : Option Value :=
  match w.classAttribute? className name with
  | some (.default v) => some v
  | some (.method _) => some (method (type (.declared className)) name)
  | some (.property _) => some (ofClass .property)
  | some .field => some (ofClass .tupleGetter)
  | Option.none =>
    if w.classes.kindOf className != .namedTuple then Option.none
    else (elementNames? w className name).or (builtinAttribute? .tuple name)

/-- The classes that a class extends, under the names that every class has for them. -/
def ancestryAttribute? (w : World) (t : HostType) (name : String) : Option Value :=
  let bases := w.classes.basesOf t
  if (w.classes.ancestry t).isEmpty then Option.none
  else
    match name with
    | "__mro__" => some (tuple ((w.classes.ancestry t).map type))
    | "__bases__" => some (tuple (bases.map type))
    | "__base__" => some (bases.head?.elim none type)
    | _ => Option.none

/-- Reading an attribute of a class. -/
def typeAttribute (w : World) (t : HostType) (name : String) : Outcome Value :=
  let offered := match t, name with
    | .builtin b, name => builtinAttribute? b name
    | .declared c, name => declaredAttribute? w c name
    | .record n, name => recordAttribute? w n (type t) name
    | _, _ => Option.none
  let named := match name with
    | "__name__" | "__qualname__" => some (str t.name)
    | "__module__" => some (str (t.home.getD "builtins"))
    | name => ancestryAttribute? w t name
  ((w.assigned? (.type t) name).or (offered.or named)).elim
    (.error (noAttribute w (type t) name)) .ok

/-- An attribute that was found, or the fault of its absence. -/
def found (w : World) (v : Value) (name : String) : Option Value → Outcome Value
  | some u => .ok u
  | Option.none => .error (noAttribute w v name)

/-- Reading an attribute of an object. -/
def objectAttribute (w : World) (r : Ref) (name : String) : Outcome Value :=
  let o := w.object r
  match o.type with
  | .declared c => instanceAttribute w (object r) c o.attributes depthLimit name
  | t =>
    if name == dictLabel then .ok (dict (entriesOf o.attributes))
    else
      found w (object r) name
        ((o.attributes.lookup name).or ((w.assigned? (.type t) name).or
          (if name == moduleLabel then t.home.map str else Option.none)))

/-- What a value's attributes are assigned to, if it is an object of its own. -/
def ref? (w : World) (v : Value) : Option Ref :=
  let marked := fun (m : Nat) (r : Ref) => if m == 0 then Option.none else some r
  match v with
  | object r => some r
  | type t => some (.type t)
  | orderedDict _ m => marked m (.made m)
  | closure n => some (.made n)
  | function i .. => some (.made i)
  | expr _ p => marked p.root (.expression p)
  | method (type (.declared c)) n => some (.function (.declared c) n)
  | method (object r) n => some (.function (w.object r).type n)
  | _ => Option.none

/-- What a value offers under a name like every other value of its sort: its class, the attributes
that were assigned to it, or the name of a function, and what a method is a method of. -/
def generalAttribute? (w : World) (v : Value) (name : String) : Option Value :=
  let assigned := (v.ref? w).map fun r => dict (entriesOf (w.object r).attributes)
  if name == classLabel then some (type (v.typeIn w))
  else if name == dictLabel then
    match v with
    | orderedDict .. | function .. | closure .. | method (type (.declared _)) _ => assigned
    | record .. => some (dict [])
    | _ => Option.none
  else
    match v, name with
    | method _ n, "__name__" => some (str n)
    | method (type _) _, "__self__" => Option.none
    | method receiver _, "__self__" => some receiver
    | method (object r) n, "__func__" => some (method (type (w.object r).type) n)
    | primitive p, "__name__" | primitive p, "__qualname__" =>
      if p.isHostOwn then some (str p.name) else Option.none
    | primitive p, "__module__" => if p.isHostOwn then some (str "builtins") else Option.none
    | _, _ => Option.none

/-- What a value other than an object or a proxy offers under a name. -/
def valueAttribute (w : World) (v : Value) (name : String) : Outcome Value :=
  match v with
  | record t fs =>
    match recordAttribute? w t v name, fs.lookup name with
    | some u, _ | Option.none, some u => .ok u
    | Option.none, Option.none => .error (.recordAttribute t name)
  | typeRef r => found w v name (typeAttribute? w r name)
  | fieldRef t i => found w v name (fieldAttribute? w t i name)
  | schema => found w v name (schemaAttribute? w name)
  | expr e p => found w v name (treeAttribute? e p name)
  | type t | generic t _ => typeAttribute w t name
  | v => plainAttribute w v name

/-- Reading an attribute of a value. -/
def getAttr (w : World) (v : Value) (name : String) : Outcome Value :=
  match v with
  | proxy u mark => proxyAttribute w u mark name
  | object r => if name == classLabel then .ok (type (v.typeIn w)) else objectAttribute w r name
  | v =>
    match (v.ref? w).bind (w.assigned? · name), v.generalAttribute? w name with
    | some u, _ | Option.none, some u => .ok u
    | Option.none, Option.none => valueAttribute w v name

end Value

end EntityGraph
