import EntityGraph.Scalar.Registry

/-!
# Declaring types, queries and scalars

An open schema takes declarations one by one. Each of them looks at what was declared before, and
is refused if it would give two types, two fields of a type, two queries or two scalars one name, or
two types one host type. Once a schema is complete it refuses every declaration.

A query is declared with a function over the context, which is captured at once, or with a function
from bound arguments to such a function, which is captured anew for every request.
-/

namespace EntityGraph

/-- Changes to the schema of a world that may fail; what was declared before a failure stays. -/
abbrev Declaring := ExceptT Fault (StateM World)

namespace World

/-- What was left behind in a world. -/
def trail (w : World) : Trail :=
  { supply := w.schema.supply, memory := w.memory, closures := w.closures }

/-- A world that knows of all that was left behind. -/
def following (w : World) (t : Trail) : World :=
  let w := w.after t
  { w with closures := t.closures, schema := { w.schema with supply := t.supply } }

end World

namespace Declaring

variable {α : Type}

/-- The schema as it is. -/
def schema : Declaring Schema := do return (← get).schema

/-- Changes the schema. -/
def update (f : Schema → Schema) : Declaring Unit :=
  modify fun w => { w with schema := f w.schema }

/-- The result of a computation, or its fault. -/
def ofOutcome (x : Outcome α) : Declaring α := ExceptT.mk (pure x)

/-- The result of a computation that makes parameters. What it leaves behind becomes part of the
world. -/
def making (x : World → Making α) : Declaring α := do
  let w ← get
  let (result, t) := (x w).runFrom w.trail
  set (w.following t)
  ofOutcome result

/-- The result of a change to the scalars of the schema. -/
def registering (x : Registering α) : Declaring α := do
  let (result, scalars) := (x.run).run (← schema).scalars
  update fun s => { s with scalars }
  ofOutcome result

end Declaring

namespace Schema

open Declaring

/-- A schema without declarations. Its context parameter must be older than all parameters of the
supply. -/
def empty (context : Param) (supply : Nat) : Schema :=
  { context, supply, types := [], queries := [], scalars := Registry.standard, adHoc := []
    completed := false, allowsReserved := false, system := none }

/-- Fails if the schema is complete. -/
def ensureOpen (change : Change) : Declaring Unit := do
  if (← schema).completed then throw (.completedFor change)

/-- Whether values of a host type are scalars: the type is primitive, or a scalar produces it. -/
def isScalarHost (s : Schema) (host : HostType) : Bool :=
  host.isPrimitive || (s.scalarOf? host).isSome

/-- A type without fields. A name that is missing or empty is taken from the host type. -/
def newType (s : Schema) (host : HostType) (name : Option String) (description : String) :
    TypeDecl :=
  { host, name := (name.filter (!·.isEmpty)).getD host.name, description
    isScalar := s.isScalarHost host, fields := [], projection := none }

/-- Declares a type. -/
def addType (host : HostType) (name : Option String) (description : String) :
    Declaring TypeDecl := do
  ensureOpen (.type host)
  let s ← schema
  if (s.findType? host).isSome then throw (.typeExists host)
  let t := s.newType host name description
  match s.types.find? (·.name == t.name) with
  | some owner => throw (.typeNameExists t.name owner.host host)
  | none =>
    update fun s => { s with types := s.types ++ [t] }
    return t

/-- The place of the type that was declared for a host type. -/
def getType (host : HostType) : Declaring Nat := do
  match (← schema).findType? host with
  | some i => return i
  | none => throw (.typeUnknown host)

/-- The type that describes values of a host type. An undeclared scalar type is remembered. -/
def describe (host : HostType) : Declaring TypeDecl := do
  let s ← schema
  match s.typeRefOf host with
  | .adHoc host =>
    if !s.adHoc.contains host then update fun s => { s with adHoc := s.adHoc ++ [host] }
    return .adHoc host
  | r => return s.resolve r

/-- The lambda over the context that a query is declared with: one that was built already, or a
captured function. -/
def captureQuery (w : World) (function : Value) : Making (Expr Value) :=
  match function with
  | .expr (.lambda ps b) _ =>
    if ps == [w.schema.context] then return .lambda ps b else throw (.queryLambda (.lambda ps b))
  | f => w.capture f [w.schema.context]

/-- The names of the queries through which every complete schema describes itself. -/
def reservedQueries : List String := ["__schema", "__type"]

/-- Declares a query under a name that is not taken, nor reserved while that is forbidden. -/
def declareQuery (q : QueryDecl) : Declaring QueryDecl := do
  ensureOpen (.query q.name)
  let s ← schema
  if reservedQueries.contains q.name && !s.allowsReserved then throw (.queryReserved q.name)
  if (s.findQuery? q.name).isSome then throw (.queryExists q.name)
  update fun s => { s with queries := s.queries ++ [q] }
  return q

/-- Declares a query by a function over the context. -/
def addQuery (mode : Mode) (name : String) (host : HostType) (function : Value)
    (description : String) : Declaring QueryDecl := do
  ensureOpen (.query name)
  let e ← making fun w => captureQuery w function
  declareQuery { name, description, host, shape := .none, mode, source := .fixed e }

/-- Declares a query by a function from its arguments to a function over the context. -/
def addQueryWithArgs (mode : Mode) (name : String) (host : HostType) (shape : ArgShape)
    (factory : Value) (description : String) : Declaring QueryDecl :=
  declareQuery { name, description, host, shape, mode, source := .factory factory }

/-- Declares a scalar. -/
def addScalar (kind : WireKind) (translate : Value) (name : Option String)
    (host : Option HostType) (description : String) : Declaring ScalarEntry := do
  ensureOpen (.scalar kind)
  registering (Registry.addNew kind translate name host description)

end Schema

namespace QueryDecl

/-- The lambda over the context of a query, for bound arguments. -/
def expression (w : World) (q : QueryDecl) (arguments : Value) : Making (Expr Value) :=
  match q.source with
  | .fixed e => return e
  | .factory f => do Schema.captureQuery w (← Value.call w f [arguments])

end QueryDecl

end EntityGraph
