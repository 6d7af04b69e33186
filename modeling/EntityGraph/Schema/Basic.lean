import EntityGraph.Value.Basic
import EntityGraph.Interface.System

/-!
# Schemas

A schema declares types, fields on them and named queries over the data context of an application,
together with the scalars that carry values over the wire. It is open at first, and complete once
its declarations were checked. Types, fields and queries are lists in declaration order, whatever
host class each one describes.

Every expression of a schema mentions the same context parameter. This is what lets the executor
put the expressions of fields into those of queries.
-/

namespace EntityGraph

/-- How a scalar is carried on the wire. -/
inductive WireKind where
  | string | integer | float | boolean
  deriving DecidableEq, Repr, Inhabited

/-- The arguments that a query or a field takes. -/
inductive ArgShape where
  /-- None. -/
  | none
  /-- These names, with a default for each. A name that is no text can never be supplied. -/
  | defaults (entries : List (Value × Value))
  /-- The fields of a class, given by its name. -/
  | fieldsOf (className : String)
  /-- Something else, which describes no arguments. -/
  | unsupported (v : Value)
  deriving Inhabited

/-- Where the value of a field comes from. -/
inductive FieldSource where
  /-- A lambda over the context and the entity. -/
  | fixed (e : Expr Value)
  /-- A function from the bound arguments to such a lambda, or to a function to be captured. -/
  | factory (f : Value)
  /-- A function without arguments, called after the query was evaluated. -/
  | post (f : Value)
  deriving Inhabited

/-- A field of a type. -/
structure FieldDecl where
  name : String
  description : String
  host : HostType
  isList : Bool
  shape : ArgShape
  source : FieldSource
  deriving Inhabited

/-- The class of the records of an entity type, or of the values of a scalar. -/
inductive Projection where
  /-- Values of a scalar stand for themselves. -/
  | host (t : HostType)
  /-- Records with these members, each with the class of its values, and these post members. -/
  | record (members : List (String × HostType)) (post : List String)
  deriving Inhabited

/-- A type: a scalar, or an entity type with fields. -/
structure TypeDecl where
  host : HostType
  name : String
  description : String
  isScalar : Bool
  fields : List FieldDecl
  projection : Option Projection
  deriving Inhabited

namespace TypeDecl

/-- The names of the members of a type's records that a query computes. -/
def preMembers (t : TypeDecl) : List String :=
  match t.projection with
  | some (.record members _) => members.map (·.1)
  | _ => []

/-- The names of the members of a type's records that are set after the query. -/
def postMembers (t : TypeDecl) : List String :=
  match t.projection with
  | some (.record _ post) => post
  | _ => []

end TypeDecl

/-- How the value of a query is treated. -/
inductive Mode where
  /-- A sequence, which may be paginated and whose elements are projected. -/
  | modified
  /-- A single value, projected as it is. -/
  | unmodified
  deriving DecidableEq, Repr, Inhabited

/-- Where the value of a query comes from: a lambda over the context, or a function from the bound
arguments to one. -/
inductive QuerySource where
  | fixed (e : Expr Value)
  | factory (f : Value)
  deriving Inhabited

/-- A named query. -/
structure QueryDecl where
  name : String
  description : String
  host : HostType
  shape : ArgShape
  mode : Mode
  source : QuerySource
  deriving Inhabited

/-- A scalar: its wire name, how it is carried, and how a raw value becomes a host value. -/
structure ScalarEntry where
  name : String
  kind : WireKind
  host : HostType
  translate : Value
  description : String
  deriving Inhabited

/-- A schema. -/
structure Schema where
  /-- The one context parameter of all its expressions. -/
  context : Param
  /-- A number above those of all parameters made so far. -/
  supply : Nat
  types : List TypeDecl
  queries : List QueryDecl
  scalars : List ScalarEntry
  /-- The host types for which an undeclared scalar type was made. -/
  adHoc : List HostType
  completed : Bool
  /-- Whether queries may now take the names through which a schema describes itself. -/
  allowsReserved : Bool
  /-- What requests are checked against, once the schema is complete. -/
  system : Option Interface.TypeSystem
  deriving Inhabited

namespace FieldDecl

/-- Whether a field is computed after the query was evaluated. -/
def isPost (f : FieldDecl) : Bool :=
  match f.source with
  | .post _ => true
  | _ => false

end FieldDecl

namespace TypeDecl

/-- The field with a name. -/
def findField? (t : TypeDecl) (name : String) : Option FieldDecl :=
  t.fields.find? (·.name == name)

/-- The fields that are computed inside the query. -/
def preFields (t : TypeDecl) : List FieldDecl :=
  t.fields.filter (!·.isPost)

/-- The fields that are computed after the query was evaluated. -/
def postFields (t : TypeDecl) : List FieldDecl :=
  t.fields.filter (·.isPost)

/-- What a type is, as a schema describes it. -/
def kindName (t : TypeDecl) : String :=
  if t.isScalar then "SCALAR" else "OBJECT"

end TypeDecl

namespace QueryDecl

/-- Whether a query produces a sequence. -/
def isList (q : QueryDecl) : Bool := q.mode == .modified

end QueryDecl

namespace ScalarEntry

/-- The type that describes the values of a scalar. -/
def typeDecl (e : ScalarEntry) : TypeDecl :=
  { host := e.host, name := if e.name.isEmpty then e.host.name else e.name
    description := e.description, isScalar := true, fields := []
    projection := some (.host e.host) }

end ScalarEntry

/-- The undeclared scalar type of a host type. -/
def TypeDecl.adHoc (host : HostType) : TypeDecl :=
  { host, name := host.name, description := "", isScalar := true, fields := []
    projection := some (.host host) }

namespace Schema

/-- The declared type of a host type, with its place. -/
def findType? (s : Schema) (host : HostType) : Option Nat :=
  s.types.findIdx? (·.host == host)

/-- The scalar that produces exactly this host type. -/
def scalarOf? (s : Schema) (host : HostType) : Option Nat :=
  s.scalars.findIdx? (·.host == host)

/-- The query with a name. -/
def findQuery? (s : Schema) (name : String) : Option QueryDecl :=
  s.queries.find? (·.name == name)

/-- The type that describes values of a host type: the declared one, else that of the scalar that
produces it, else an undeclared scalar type. -/
def typeRefOf (s : Schema) (host : HostType) : TypeRef :=
  match s.findType? host with
  | some i => .declared i
  | none =>
    match s.scalarOf? host with
    | some i => .scalar i
    | none => .adHoc host

/-- The type behind a reference. -/
def resolve (s : Schema) : TypeRef → TypeDecl
  | .declared i => s.types.getD i default
  | .scalar i => (s.scalars.getD i default).typeDecl
  | .adHoc host => .adHoc host

/-- The type that describes values of a host type. -/
def typeOf (s : Schema) (host : HostType) : TypeDecl :=
  s.resolve (s.typeRefOf host)

/-- The declared types and after them the types of the scalars whose names are not declared. -/
def allTypes (s : Schema) : List TypeRef :=
  let names := s.types.map (·.name)
  (List.range s.types.length).map TypeRef.declared
    ++ ((List.range s.scalars.length).map TypeRef.scalar).filter fun r =>
      !names.contains (s.resolve r).name

end Schema

end EntityGraph
