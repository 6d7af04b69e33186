import EntityGraph.Host.Hint
import EntityGraph.Value.Basic

/-!
# Declared classes

An application declares its classes with members, properties and methods. A class has the members
of its bases too, the bases' first; a member that a class declares again keeps its place and takes
the new hint. Classes that are mapped to tables list their columns and relationships instead.

Publicly readable are the names that do not start with an underscore.
-/

namespace EntityGraph

/-- What a method or a property gives back. -/
inductive Reply where
  /-- Always this value. -/
  | value (v : Value)
  /-- The attribute of the instance with this name. -/
  | attribute (name : String)
  /-- The list of the arguments. -/
  | arguments

/-- How instances of a class behave. -/
inductive ClassKind where
  /-- Fields, and equality field by field. -/
  | record
  /-- A tuple with named fields. -/
  | namedTuple
  /-- Hinted attributes, and equality by identity. -/
  | plain
  /-- Columns and relationships, and equality by identity. -/
  | mapped
  deriving DecidableEq, Repr, Inhabited

/-- A hinted member of a class. A default that is made anew for every instance is no attribute of
the class. -/
structure MemberDecl where
  name : String
  hint : Hint
  default : Option Value
  isMade : Bool

/-- A property of a class; one without a reply cannot be read. -/
structure PropertyDecl where
  name : String
  hint : Option Hint
  reply : Option Reply

/-- A relationship of a mapped class to another class. -/
structure Relationship where
  name : String
  target : String
  isList : Bool

/-- A class. Columns have the type of their values, as far as it is known. -/
structure ClassDecl where
  name : String
  kind : ClassKind
  bases : List String
  members : List MemberDecl
  properties : List PropertyDecl
  methods : List (String × Reply)
  columns : List (String × MemberType)
  relationships : List Relationship

/-- The classes of an application. -/
abbrev Classes := List ClassDecl

namespace Classes

/-- The class with a name. -/
def find? (cs : Classes) (name : String) : Option ClassDecl :=
  List.find? (·.name == name) cs

/-- The next class of a merge: the first head of a sequence that is in no tail. -/
def nextHead (seqs : List (List String)) : Option String :=
  (seqs.filterMap List.head?).find? fun c => !seqs.any fun s => (s.drop 1).contains c

/-- Merges orders of classes into one that respects them all. -/
def mergeOrders : Nat → List (List String) → List String
  | 0, _ => []
  | fuel + 1, seqs =>
    let seqs := seqs.filter (!·.isEmpty)
    match nextHead seqs with
    | none => []
    | some c => c :: mergeOrders fuel (seqs.map fun s => if s.head? == some c then s.drop 1 else s)

/-- The names of a class and its bases in the order of look-up, up to a depth. -/
def orderOf (cs : Classes) : Nat → String → List String
  | 0, _ => []
  | depth + 1, name =>
    match cs.find? name with
    | none => [name]
    | some c =>
      let orders := c.bases.map (cs.orderOf depth)
      name :: mergeOrders (cs.length * cs.length + cs.length + 1) (orders ++ [c.bases])

/-- A class and its bases in the order of look-up. -/
def lineage (cs : Classes) (name : String) : List ClassDecl :=
  (cs.orderOf (cs.length + 1) name).filterMap cs.find?

/-- The kind of a class; a plain class takes it from its bases. -/
def kindOf (cs : Classes) (name : String) : ClassKind :=
  ((cs.lineage name).find? (·.kind != .plain)).elim .plain (·.kind)

/-- A class and all classes that it extends, in the order of look-up. -/
def ancestry (cs : Classes) : HostType → List HostType
  | .builtin b => b.lineage.map .builtin
  | .declared n =>
    let root : Builtin := if cs.kindOf n == .namedTuple then .tuple else .object
    (cs.lineage n).map (.declared ·.name) ++ root.lineage.map .builtin
  | _ => []

/-- The classes that a class extends directly. -/
def basesOf (cs : Classes) (t : HostType) : List HostType :=
  let named := match t with
    | .declared n => (cs.find? n).elim [] (·.bases)
    | _ => []
  if named.isEmpty then ((cs.ancestry t).drop 1).take 1 else named.map HostType.ofName

/-- Puts a member into a list: one declared again keeps its place. -/
def putMember (found : List MemberDecl) (m : MemberDecl) : List MemberDecl :=
  if found.any (·.name == m.name) then found.map fun n => if n.name == m.name then m else n
  else found ++ [m]

/-- The members of a class, those of its bases first. -/
def allMembers (cs : Classes) (name : String) : List MemberDecl :=
  ((cs.lineage name).reverse.flatMap (·.members)).foldl putMember []

/-- The public members of a class that belong to its instances. -/
def hintedMembers (cs : Classes) (name : String) : List MemberDecl :=
  (cs.allMembers name).filter fun m => !m.name.startsWith "_" && !m.hint.isClassVar

/-- The public properties of a class, those of its bases first, each once. -/
def propertyNames (cs : Classes) (name : String) : List String :=
  ((cs.lineage name).reverse.flatMap (·.properties)).foldl
    (fun found p =>
      if p.name.startsWith "_" || found.contains p.name then found else found ++ [p.name]) []

/-- What a class offers under a name. -/
inductive Attribute where
  | property (p : PropertyDecl)
  | method (r : Reply)
  | default (v : Value)
  /-- A field of a tuple. -/
  | field

end Classes

/-- What one class declares under a name. -/
def ClassDecl.attribute? (c : ClassDecl) (name : String) : Option Classes.Attribute :=
  match c.properties.find? (·.name == name) with
  | some p => some (.property p)
  | none =>
    match c.methods.lookup name with
    | some r => some (.method r)
    | none =>
      if c.kind == .namedTuple then
        if c.members.any (·.name == name) then some .field else none
      else ((c.members.find? fun m => m.name == name && !m.isMade).bind (·.default)).map .default

namespace Classes

/-- What a class offers under a name, its own declarations before those of its bases. -/
def attribute? (cs : Classes) (name attr : String) : Option Attribute :=
  (cs.lineage name).findSome? (·.attribute? attr)

/-- A member with the default that its class has for it, be it inherited. -/
def withDefault (cs : Classes) (className : String) (m : MemberDecl) : MemberDecl :=
  match m.default, cs.attribute? className m.name with
  | none, some (.default v) => { m with default := some v }
  | _, _ => m

/-- The fields of a record class, in order: those of the classes behind it, the farthest first, and
then its own. A plain class has the fields of the nearest record class. Members that belong to the
class keep their places. -/
def recordFields (cs : Classes) : Nat → String → List MemberDecl
  | 0, _ => []
  | depth + 1, name =>
    let order := (cs.orderOf (cs.length + 1) name).drop 1
    match cs.find? name with
    | none => []
    | some c =>
      if c.kind == .record then
        let inherited := order.reverse.flatMap (cs.recordFields depth)
        (inherited ++ c.members.map (cs.withDefault name)).foldl putMember []
      else
        let isRecord := fun (n : String) => (cs.find? n).any (·.kind == .record)
        (order.find? isRecord).elim [] (cs.recordFields depth)

/-- The fields of a record class or a named tuple. Named tuples have all members of their own. -/
def fields (cs : Classes) (name : String) : List MemberDecl :=
  match cs.kindOf name with
  | .record => (cs.recordFields (cs.length + 1) name).filter (!·.hint.isClassVar)
  | .namedTuple => ((cs.lineage name).find? (·.kind == .namedTuple)).elim [] (·.members)
  | .plain | .mapped => []

/-- The mapped class among a class and its bases. -/
def mappedBase? (cs : Classes) (name : String) : Option ClassDecl :=
  (cs.lineage name).find? (·.kind == .mapped)

end Classes

/-- What is said of a class that describes schemas: its hinted members, then its properties. -/
structure DescribedClass where
  members : List (String × MemberType)
  properties : List (String × MemberType)

namespace DescribedClass

/-- The classes through which a schema describes itself. -/
def of? : HostType → Option DescribedClass
  | .entityType =>
    some
      { members :=
          [("host_type", .unknown), ("name", ⟨.builtin .str, false⟩),
            ("description", ⟨.builtin .str, false⟩), ("is_scalar", ⟨.builtin .bool, false⟩),
            ("fields", ⟨.field, true⟩), ("projection_type", .unknown)]
        properties :=
          [("kind", ⟨.builtin .str, false⟩), ("pre_fields", ⟨.field, true⟩),
            ("post_fields", ⟨.field, true⟩)] }
  | .field =>
    some
      { members :=
          [("name", ⟨.builtin .str, false⟩), ("description", ⟨.builtin .str, false⟩),
            ("field_host_type", .unknown), ("is_list", ⟨.builtin .bool, false⟩),
            ("args_shape", ⟨.any, false⟩), ("is_post", ⟨.builtin .bool, false⟩)]
        properties := [("type", ⟨.entityType, false⟩)] }
  | .schema =>
    some
      { members := []
        properties := [("types", ⟨.entityType, true⟩), ("queries", ⟨.query, true⟩)] }
  | _ => none

end DescribedClass

namespace Classes

/-- The type of a property, if it can be read and carries a hint. -/
def propertyType? : Attribute → Option MemberType
  | .property p => if p.reply.isSome then p.hint.map fun h => h.ofMember.memberType else none
  | _ => none

/-- The type of a member of a declared class; an unknown member has the unknown type. -/
def declaredMemberType (cs : Classes) (name member : String) : MemberType :=
  let mapped := cs.mappedBase? name
  match mapped.bind fun c => c.relationships.find? (·.name == member) with
  | some r => ⟨.declared r.target, r.isList⟩
  | none =>
    match mapped.bind fun c => c.columns.lookup member with
    | some t => t
    | none =>
      match (cs.hintedMembers name).find? (·.name == member) with
      | some m => m.hint.ofMember.memberType
      | none => ((cs.attribute? name member).bind propertyType?).getD .unknown

/-- The type of a member of a host type. -/
def memberType (cs : Classes) (t : HostType) (member : String) : MemberType :=
  match t with
  | .declared name => cs.declaredMemberType name member
  | t =>
    match DescribedClass.of? t with
    | some c => ((c.members ++ c.properties).lookup member).getD .unknown
    | none => .unknown

/-- The publicly readable members of a declared class, in order. -/
def declaredPublicNames (cs : Classes) (name : String) : List String :=
  match cs.mappedBase? name with
  | some c => c.columns.map (·.1) ++ c.relationships.map (·.name)
  | none =>
    match cs.kindOf name with
    | .record | .namedTuple => (cs.fields name).map (·.name)
    | _ =>
      let hinted := (cs.hintedMembers name).map (·.name)
      hinted ++ (cs.propertyNames name).filter (!hinted.contains ·)

/-- The publicly readable members of a host type, in order. -/
def publicNames (cs : Classes) (t : HostType) : List String :=
  let names := match t with
    | .declared name => cs.declaredPublicNames name
    | t => ((DescribedClass.of? t).elim [] fun c => (c.members ++ c.properties).map Prod.fst)
  names.filter (!·.startsWith "_")

end Classes

end EntityGraph
