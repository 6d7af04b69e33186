import EntityGraph.Interface.System

/-!
# Introspection

Documents may ask a schema about itself. The types of the answers belong to the request language and
are the same for every schema. The fields that lead to them are no fields of the root type: they are
known wherever a selection stands beneath it, and `__typename` is known on every object.

Two directives can stand in a request; both take one condition.
-/

namespace EntityGraph.Interface

namespace TypeExpr

/-- A type that must be present. -/
def present (name : String) : TypeExpr := nonNull (named name)

/-- A list whose elements must be present. -/
def listOf (name : String) : TypeExpr := list (present name)

/-- A list that must be present, as must its elements. -/
def fullList (name : String) : TypeExpr := nonNull (listOf name)

end TypeExpr

/-- A field without arguments and description. -/
def plainField (name : String) (type : TypeExpr) : FieldDef :=
  { name, description := "", args := [], type }

/-- A field that leaves out what is deprecated unless its argument, which has this type, asks for
it. -/
def fieldFilteredBy (condition : TypeExpr) (name : String) (type : TypeExpr) : FieldDef :=
  { plainField name type with
    args := [{ name := "includeDeprecated", type := condition, hasDefault := true }] }

/-- A field that can leave out what is deprecated. -/
def filteredField : String → TypeExpr → FieldDef := fieldFilteredBy (.named "Boolean")

/-- An object without description. -/
def plainObject (name : String) (fields : List FieldDef) : TypeDef :=
  { name, description := "", body := .object fields }

/-- An enumeration without description. -/
def plainEnumeration (name : String) (values : List String) : TypeDef :=
  { name, description := "", body := .enumeration values }

/-- The fields of whatever can be deprecated. -/
def statusFields : List FieldDef :=
  [plainField "isDeprecated" (.present "Boolean"), plainField "deprecationReason" (.named "String")]

/-- The types of answers about a schema. -/
def introspectionTypes : List TypeDef :=
  [plainObject "__Schema"
      [plainField "description" (.named "String"), plainField "types" (.fullList "__Type"),
        plainField "queryType" (.present "__Type"), plainField "mutationType" (.named "__Type"),
        plainField "subscriptionType" (.named "__Type"),
        fieldFilteredBy (.present "Boolean") "directives" (.fullList "__Directive")],
    plainObject "__Directive"
      ([plainField "name" (.present "String"), plainField "description" (.named "String"),
        plainField "isRepeatable" (.present "Boolean"),
        plainField "locations" (.fullList "__DirectiveLocation"),
        filteredField "args" (.fullList "__InputValue")]
        ++ statusFields),
    plainEnumeration "__DirectiveLocation" directiveLocations,
    plainObject "__Type"
      [plainField "kind" (.present "__TypeKind"), plainField "name" (.named "String"),
        plainField "description" (.named "String"), plainField "specifiedByURL" (.named "String"),
        filteredField "fields" (.listOf "__Field"), plainField "interfaces" (.listOf "__Type"),
        plainField "possibleTypes" (.listOf "__Type"),
        filteredField "enumValues" (.listOf "__EnumValue"),
        filteredField "inputFields" (.listOf "__InputValue"),
        plainField "ofType" (.named "__Type"), plainField "isOneOf" (.named "Boolean")],
    plainObject "__Field"
      ([plainField "name" (.present "String"), plainField "description" (.named "String"),
        filteredField "args" (.fullList "__InputValue"), plainField "type" (.present "__Type")]
        ++ statusFields),
    plainObject "__InputValue"
      ([plainField "name" (.present "String"), plainField "description" (.named "String"),
        plainField "type" (.present "__Type"), plainField "defaultValue" (.named "String")]
        ++ statusFields),
    plainObject "__EnumValue"
      ([plainField "name" (.present "String"), plainField "description" (.named "String")]
        ++ statusFields),
    plainEnumeration "__TypeKind"
      ["SCALAR", "OBJECT", "INTERFACE", "UNION", "ENUM", "INPUT_OBJECT", "LIST", "NON_NULL"]]

/-- The field with the name of an object's type. -/
def typeNameField : FieldDef := plainField "__typename" (.present "String")

/-- The fields of the root type that lead to answers about the schema. -/
def rootMetaFields : List FieldDef :=
  [plainField "__schema" (.present "__Schema"),
    { plainField "__type" (.named "__Type") with
      args := [{ name := "name", type := .present "String", hasDefault := false }] }]

namespace TypeSystem

/-- The type with a name. -/
def find? (s : TypeSystem) (name : String) : Option TypeDef :=
  (s.types ++ introspectionTypes).find? (·.name == name)

/-- The type at the core of a mentioned type. -/
def core? (s : TypeSystem) (t : TypeExpr) : Option TypeDef := s.find? t.base

/-- The object with a name. -/
def object? (s : TypeSystem) (name : String) : Option TypeDef :=
  (s.find? name).filter (·.isObject)

end TypeSystem

namespace TypeDef

/-- The field that a selection beneath a type means by a name. -/
def fieldNamed? (t : TypeDef) (name : String) : Option FieldDef :=
  let always := typeNameField :: if t.name == rootName then rootMetaFields else []
  if t.isObject then (always ++ t.fields).find? (·.name == name) else none

/-- Whether values of a type can be supplied by a request. -/
def isInput (t : TypeDef) : Bool := !t.isObject

end TypeDef

/-- The arguments of the directives that a request may hold. -/
def directiveArgs? (name : String) : Option (List ArgumentDef) :=
  if name == "skip" || name == "include" then
    some [{ name := "if", type := .present "Boolean", hasDefault := false }]
  else none

end EntityGraph.Interface
