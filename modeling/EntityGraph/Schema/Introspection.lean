import EntityGraph.Schema.Field

/-!
# A schema describes itself

Completing a schema declares three more types, for schemas, for types and for fields, with two
queries that lead to them, and gives every entity type a field with the type's own name. All of this
is declared as an application would declare it, so requests need no rules of their own for it.

Interfaces, mutations, deprecation and directives are not modelled and are described as missing.
-/

namespace EntityGraph

namespace Schema

open Declaring

/-- The field with the name of a type. -/
def typeNameName : String := "__typename"

/-- Declares a field by the body of its lambda, given the entity. -/
def addBodyField (owner : HostType) (name : String) (body : Expr Value → Expr Value)
    (host : Option HostType) (isList : Bool) : Declaring Unit := do
  let context := (← schema).context
  let entity ← making fun _ => newParam (entityName owner.name)
  let read := Expr.lambda [context, entity] (body (.param entity))
  let _ ← addField owner name (.ofTree read) host isList ""

/-- Declares fields that read the members with these names. -/
def addMemberFields (owner : HostType) (members : List String) : Declaring Unit := do
  let i ← getType owner
  members.forM fun m => do
    let _ ← insertMember i m ""

/-- Declares the type of schemas. -/
def addSchemaType : Declaring Unit := do
  let _ ← addType .schema (some "__Schema") "A schema's types and root operations."
  addBodyField .schema "types" (fun e => .method e "list_all_types" []) (some .entityType) true
  addBodyField .schema "queryType" (fun _ => .lit .none) (some .entityType) false
  addBodyField .schema "mutationType" (fun _ => .lit .none) (some .entityType) false
  addBodyField .schema "directives" (fun _ => .lit (.list [])) (some (.builtin .str)) true

/-- Declares the type of types. -/
def addEntityType : Declaring Unit := do
  let _ ← addType .entityType (some "__Type") "A type of the schema."
  addMemberFields .entityType ["kind", "name", "description"]
  addBodyField .entityType "fields" (fun e => .member e "fields") (some .field) true
  addBodyField .entityType "interfaces" (fun _ => .lit (.list [])) (some .entityType) true

/-- Declares the type of fields. -/
def addFieldType : Declaring Unit := do
  let _ ← addType .field (some "__Field") "A field of a type of the schema."
  addMemberFields .field ["name", "description", "type"]
  addBodyField .field "isDeprecated" (fun _ => .lit (.bool false)) none false
  addBodyField .field "deprecationReason" (fun _ => .lit (.str "")) none false

/-- From the bound arguments, reads the name and then gives the function that looks the type up. -/
def typeLookup : Script Value :=
  let isNamed : Script Value :=
    .fn ["type_value"] none (.bin .eq (.attr (.var "type_value") "name") (.var "type_name"))
  let types : Script Value := .call (.attr (.const .schema) "list_all_types") []
  let found : Script Value := .call (.attr types "first_or_default") [isNamed]
  .call (.fn ["type_name"] none (.fn ["context"] none found))
    [.item (.var "arguments") (.lit (.str "name"))]

/-- Declares the queries for the schema and for the type with a name. -/
def addSchemaQueries : Declaring Unit := do
  let context := (← schema).context
  let _ ← declareQuery
    { name := "__schema", description := "The schema itself.", host := .schema, shape := .none
      mode := .unmodified, source := .fixed (.lambda [context] (.lit .schema)) }
  let supply := (← schema).supply
  update fun s => { s with supply := supply + 1 }
  let _ ← declareQuery
    { name := "__type"
      description := "The type with the given name, or null if there is none."
      host := .entityType, shape := .defaults [(.str "name", .str "")], mode := .unmodified
      source := .factory (.function supply ["arguments"] none typeLookup []) }

/-- Gives an entity type a field with its name, unless it has one. -/
def addTypeName (t : TypeDecl) : Declaring Unit := do
  if !t.isScalar && (t.findField? typeNameName).isNone then
    let supply := (← schema).supply
    update fun s => { s with supply := supply + 1 }
    let _ ← addPostField t.host typeNameName (.function supply [] none (.lit (.str t.name)) []) none
      (some (.builtin .str)) "The name of this object's type."

/-- Declares everything through which a schema describes itself. -/
def addDescription : Declaring Unit := do
  addSchemaType
  addEntityType
  addFieldType
  addSchemaQueries
  (← schema).types.forM addTypeName

/-- Allows the reserved names of queries, or forbids them. -/
def allowReserved (allowed : Bool) : Declaring Unit :=
  update fun s => { s with allowsReserved := allowed }

/-- Declares everything through which a schema describes itself. Reserved names are allowed only
meanwhile, also if this fails. -/
def addIntrospection : Declaring Unit := do
  allowReserved true
  tryCatch addDescription fun f => do
    allowReserved false
    throw f
  allowReserved false

end Schema

end EntityGraph
