import EntityGraph.Schema.Declare
import EntityGraph.Schema.Inference
import EntityGraph.Text.CamelCase
import EntityGraph.Value.Message

/-!
# Declaring fields

A field belongs to a declared type. It is computed inside the query, by a lambda over the context
and the entity, or after the query, by a function without arguments. Fields that read one member of
the entity are named after it in camel case.

Declaring a field first finds its type, then refuses a complete schema, then makes the field, and
last refuses a name that is taken.
-/

namespace EntityGraph

namespace Schema

open Declaring

/-- The name of the parameter that stands for an entity of a type. -/
def entityName (typeName : String) : String := Text.lowerFirst typeName

/-- The lambda over the context and the entity that a field is declared with: one that was built
already, or a captured function. -/
def captureField (w : World) (typeName : String) (function : Value) : Making (Expr Value) := do
  let context := w.schema.context
  match function with
  | .expr (.lambda ps b) _ =>
    if ps.length == 2 && ps.head? == some context then return .lambda ps b
    else throw (.fieldLambda typeName (.lambda ps b))
  | f =>
    let entity ← newParam (entityName typeName)
    w.capture f [context, entity]

/-- The type of the values of a field's lambda. -/
def inferField (w : World) (host : HostType) : Expr Value → MemberType
  | .lambda [_, entity] body => body.inferType w entity host
  | _ => .unknown

/-- The type at a place. -/
def typeAt (i : Nat) : Declaring TypeDecl := do return (← schema).types.getD i default

/-- Adds a field to the type at a place. -/
def insertField (i : Nat) (f : FieldDecl) : Declaring FieldDecl := do
  ensureOpen (.field f.name)
  let t ← typeAt i
  if (t.findField? f.name).isSome then throw (.fieldExists f.name t.name)
  update fun s =>
    { s with types := s.types.modify i fun t => { t with fields := t.fields ++ [f] } }
  return f

/-- Declares a field by a function over the context and the entity. Without a type it gets that of
the function's result. -/
def addField (owner : HostType) (name : String) (function : Value) (host : Option HostType)
    (isList : Bool) (description : String) : Declaring FieldDecl := do
  let i ← getType owner
  ensureOpen (.field name)
  let t ← typeAt i
  let e ← making fun w => captureField w t.name function
  let found := inferField (← get) owner e
  insertField i
    { name, description, host := host.getD found.host
      isList := isList || (host.isNone && found.isList), shape := .none, source := .fixed e }

/-- Declares a field by a function from its arguments to a function over the context and the
entity. -/
def addFieldWithArgs (owner : HostType) (name : String) (shape : ArgShape) (factory : Value)
    (host : Option HostType) (isList : Bool) (description : String) : Declaring FieldDecl := do
  let i ← getType owner
  insertField i
    { name, description, host := host.getD (.builtin .object), isList, shape
      source := .factory factory }

/-- The lambda that reads a member of the entity. -/
def memberLambda (w : World) (typeName member : String) : Making (Expr Value) := do
  let entity ← newParam (entityName typeName)
  return .lambda [w.schema.context, entity] (.member (.param entity) member)

/-- Adds a field that reads a member of the entity. -/
def insertMember (i : Nat) (member description : String) : Declaring FieldDecl := do
  let t ← typeAt i
  let e ← making fun w => memberLambda w t.name member
  let found := (← get).classes.memberType t.host member
  insertField i
    { name := Text.camelCase member, description, host := found.host, isList := found.isList
      shape := .none, source := .fixed e }

/-- The member that a selector reads. Whatever the host finds wrong with a selector's types makes it
a malformed one. -/
def selectedMember (w : World) (typeName : String) (selector : Value) : Making String := do
  let entity ← newParam (entityName typeName)
  let found ← tryCatch (w.capture selector [entity]) fun f =>
    let f := f.seen w
    if f.kind == .wrongType then throw (.selectorCapture typeName f) else throw f
  match found with
  | .lambda _ body =>
    match body with
    | .member (.param p) member =>
      if p == entity then return member else throw (.selectorShape typeName body)
    | body => throw (.selectorShape typeName body)
  | e => throw (.selectorShape typeName e)

/-- Declares a field that reads the member which a function of the entity selects. -/
def addPropertyField (owner : HostType) (selector : Value) (description : String) :
    Declaring FieldDecl := do
  let i ← getType owner
  ensureOpen .propertyField
  let t ← typeAt i
  let member ← making fun w => selectedMember w t.name selector
  insertMember i member description

/-- Declares a field for every publicly readable member of a type's host type. -/
def addAllFields (owner : HostType) : Declaring (List FieldDecl) := do
  let i ← getType owner
  ensureOpen .allFields
  ((← get).classes.publicNames owner).mapM fun member => insertMember i member ""

/-- The host type of the results of a function with this hint. -/
def hintedResult (hint : Option Hint) : HostType :=
  (hint.bind Hint.asClass?).getD (.builtin .object)

/-- Declares a field whose value is computed after the query by a function without arguments. Its
type is the one given, or else the class that the function is hinted to return. -/
def addPostField (owner : HostType) (name : String) (function : Value) (hint : Option Hint)
    (host : Option HostType) (description : String) : Declaring FieldDecl := do
  let i ← getType owner
  insertField i
    { name, description, host := host.getD (hintedResult hint), isList := false, shape := .none
      source := .post function }

end Schema

namespace FieldDecl

/-- The lambda over the context and the entity of a field, for bound arguments. -/
def expression (w : World) (f : FieldDecl) (typeName : String) (arguments : Value) :
    Making (Expr Value) :=
  match f.source with
  | .fixed e => return e
  | .factory g => do Schema.captureField w typeName (← Value.call w g [arguments])
  | .post _ => throw (.postExpression f.name)

/-- The value of a field that is computed after the query. -/
def computePost (w : World) (f : FieldDecl) : Making Value :=
  match f.source with
  | .post g => Value.call w g []
  | _ => throw (.postValue f.name)

/-- A field with these sources, of which there must be exactly one. -/
def ofSources (name : String) (host : HostType) (generator post : Option Value) :
    Outcome FieldDecl :=
  let base : FieldDecl :=
    { name, description := "", host, isList := false, shape := .none, source := .post .none }
  match generator, post with
  | some g, none => .ok { base with source := .factory g }
  | none, some p => .ok { base with source := .post p }
  | none, none => .error (.sourceCount name false)
  | some _, some _ => .error (.sourceCount name true)

end FieldDecl

end EntityGraph
