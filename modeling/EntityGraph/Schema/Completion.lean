import EntityGraph.Schema.Introspection
import EntityGraph.Interface.OfSchema

/-!
# Completing a schema

Completing checks what the application declared, adds what the schema needs to describe itself,
settles the record class of every entity type, checks that arguments have scalar types, and sets up
the type system of requests. If any of this fails, the schema is again what it was before.
-/

namespace EntityGraph

namespace TypeDecl

/-- Fails unless scalars have no fields and other types have some. -/
def validate (t : TypeDecl) : Outcome Unit :=
  if t.isScalar && !t.fields.isEmpty then .error (.scalarFields t.name (t.fields.map (·.name)))
  else if !t.isScalar && t.fields.isEmpty then .error (.noFields t.name)
  else .ok ()

end TypeDecl

namespace Schema

open Declaring

/-- The class of the values of a record member. Nested records have no class of their own. -/
def memberKind (t : TypeDecl) (isList : Bool) : HostType :=
  if t.isScalar && !isList then t.host else .builtin .object

/-- The record class of an entity type: its members with their classes, and its post members. -/
def recordClass (t : TypeDecl) : Declaring Projection := do
  if t.isScalar then throw (.projectScalar t.name)
  let members ← t.preFields.mapM fun f => do
    return (f.name, memberKind (← describe f.host) f.isList)
  return .record members (t.postFields.map (·.name))

/-- What values of a type are projected to. -/
def projectionOf (t : TypeDecl) : Declaring Projection :=
  if t.isScalar then return .host t.host else recordClass t

/-- Checks the types without a projection. -/
def validateTypes : Declaring Unit := do
  (← schema).types.forM fun t => do
    if t.projection.isNone then ofOutcome t.validate

/-- Gives the type at a place its projection, unless it has one. -/
def settleProjection (i : Nat) : Declaring Unit := do
  let t ← typeAt i
  if t.projection.isNone then
    ofOutcome t.validate
    let p ← projectionOf t
    update fun s =>
      { s with types := s.types.modify i fun t => { t with projection := some p } }

/-- Gives every type its projection. -/
def settleProjections : Declaring Unit := do
  (List.range (← schema).types.length).forM settleProjection

/-- Fails if an argument does not have a scalar type. -/
def checkArguments (owner : Owner) (shape : ArgShape) : Declaring Unit := do
  (← ofOutcome (shape.types (← get))).forM fun (n, host) => do
    let t ← describe host
    if !t.isScalar then throw (.argumentType owner (n.plain (← get)) t.name)

/-- Checks the arguments of all fields and then of all queries. -/
def checkAllArguments : Declaring Unit := do
  let s ← schema
  s.types.forM fun t => t.fields.forM fun f => checkArguments (.field f.name t.name) f.shape
  s.queries.forM fun q => checkArguments (.query q.name) q.shape

/-- Sets up the type system of requests. -/
def setUpInterface : Declaring Unit := do
  let system ← ofOutcome (Interface.ofSchema (← get))
  let s ← schema
  s.queries.forM fun q => do
    let _ ← describe q.host
  s.types.forM fun t => t.fields.forM fun f => do
    let _ ← describe f.host
  update fun s => { s with system := some system }

/-- What completing does, as far as it gets. -/
def settle : Declaring Unit := do
  if (← schema).queries.isEmpty then throw .noQueries
  validateTypes
  addIntrospection
  settleProjections
  checkAllArguments
  setUpInterface

/-- What is remembered of a schema while it is being completed. -/
structure Snapshot where
  /-- The fields of every type. -/
  fields : List (List FieldDecl)
  /-- The projection of every type. -/
  projections : List (Option Projection)
  queries : List QueryDecl
  adHoc : List HostType
  /-- The supply of numbers: an attempt that failed leaves nothing that still has one of its own. -/
  supply : Nat

/-- What there is to remember of a schema. -/
def snapshot (s : Schema) : Snapshot :=
  { fields := s.types.map (·.fields), projections := s.types.map (·.projection)
    queries := s.queries, adHoc := s.adHoc, supply := s.supply }

/-- Types with the fields and projections that are remembered. Types that were declared since are
dropped. -/
def restoreTypes : List TypeDecl → List (List FieldDecl) → List (Option Projection) →
    List TypeDecl
  | t :: ts, fields :: fs, projection :: ps =>
    { t with fields, projection } :: restoreTypes ts fs ps
  | _, _, _ => []

/-- A schema with what is remembered of it. -/
def restore (s : Schema) (before : Snapshot) : Schema :=
  { s with
    types := restoreTypes s.types before.fields before.projections
    queries := before.queries
    adHoc := before.adHoc
    supply := before.supply
    system := none }

/-- Completes a schema. If this fails, what is remembered of the schema is put back. -/
def complete : Declaring Unit := do
  let s ← schema
  if s.completed then throw .completedTwice
  let before := s.snapshot
  tryCatch settle fun f => do
    update (restore · before)
    throw f
  update fun s => { s with completed := true }

end Schema

end EntityGraph
