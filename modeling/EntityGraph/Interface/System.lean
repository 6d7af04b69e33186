/-!
# The type system of a request interface

Requests arrive as documents of a query language with types of its own: scalars, objects with
fields, enumerations, lists and non-null types. A type system lists the definitions that a schema
offers in that language; documents are checked against it and it can be written out as text.
-/

namespace EntityGraph.Interface

/-- Whether a character can start a name. -/
def startsName (c : Char) : Bool := c.isAlpha || c == '_'

/-- Whether a character can continue a name. -/
def continuesName (c : Char) : Bool := c.isAlphanum || c == '_'

/-- Whether a text is a name: ASCII letters, digits and underscores, no digit first. -/
def isName (s : String) : Bool :=
  match s.toList with
  | c :: cs => startsName c && cs.all continuesName
  | [] => false

/-- Whether a name belongs to introspection: it starts with two underscores. -/
def isReserved (name : String) : Bool := name.startsWith "__"

/-- A type as it is mentioned. -/
inductive TypeExpr where
  | named (name : String)
  | list (element : TypeExpr)
  | nonNull (inner : TypeExpr)
  deriving DecidableEq, Repr, Inhabited

namespace TypeExpr

/-- The name at the core of a type. -/
def base : TypeExpr → String
  | named n => n
  | list t => t.base
  | nonNull t => t.base

/-- The written form of a type. -/
def text : TypeExpr → String
  | named n => n
  | list t => "[" ++ t.text ++ "]"
  | nonNull t => t.text ++ "!"

/-- A type without the demand that a value be present. -/
def nullable : TypeExpr → TypeExpr
  | nonNull t => t
  | t => t

/-- The type of the elements, where lists are asked for. A type that is no list stands for its own
elements. -/
def element (t : TypeExpr) : TypeExpr :=
  match t.nullable with
  | list e => e
  | t => t

/-- Whether a type is one of lists. -/
def isList (t : TypeExpr) : Bool :=
  match t.nullable with
  | list _ => true
  | _ => false

/-- Whether a value must be present. -/
def isNonNull : TypeExpr → Bool
  | nonNull _ => true
  | _ => false

end TypeExpr

/-- An argument of a field or a directive. -/
structure ArgumentDef where
  name : String
  type : TypeExpr
  hasDefault : Bool
  deriving Repr, Inhabited

/-- A field of an object. -/
structure FieldDef where
  name : String
  description : String
  args : List ArgumentDef
  type : TypeExpr
  deriving Repr, Inhabited

/-- What a type is. -/
inductive TypeBody where
  | scalar
  | object (fields : List FieldDef)
  | enumeration (values : List String)
  deriving Repr, Inhabited

/-- A named type. -/
structure TypeDef where
  name : String
  description : String
  body : TypeBody
  deriving Repr, Inhabited

/-- The types a schema offers, in the order in which they are written out. Types of the request
language itself are among them as far as something mentions them. -/
structure TypeSystem where
  types : List TypeDef
  deriving Repr, Inhabited

/-- The name of the type whose fields are the queries. -/
def rootName : String := "Query"

namespace TypeDef

/-- The fields of a type; only objects have any. -/
def fields (t : TypeDef) : List FieldDef :=
  match t.body with
  | .object fs => fs
  | _ => []

/-- Whether values of a type have fields to select. -/
def isObject (t : TypeDef) : Bool :=
  match t.body with
  | .object _ => true
  | _ => false

end TypeDef

/-- Whether a type system obeys the rules of the request language that completing a schema does not
check: every object has a field, and no name belongs to introspection. -/
def TypeSystem.isSound (s : TypeSystem) : Bool :=
  s.types.all fun t =>
    !isReserved t.name && (!t.isObject || !t.fields.isEmpty)
      && t.fields.all fun f => !isReserved f.name && f.args.all (!isReserved ·.name)

/-- The places in a document that directives can have. -/
def directiveLocations : List String :=
  ["QUERY", "MUTATION", "SUBSCRIPTION", "FIELD", "FRAGMENT_DEFINITION", "FRAGMENT_SPREAD",
    "INLINE_FRAGMENT", "VARIABLE_DEFINITION", "SCHEMA", "SCALAR", "OBJECT", "FIELD_DEFINITION",
    "ARGUMENT_DEFINITION", "INTERFACE", "UNION", "ENUM", "ENUM_VALUE", "INPUT_OBJECT",
    "INPUT_FIELD_DEFINITION", "DIRECTIVE_DEFINITION"]

/-- The scalars that the request language defines. -/
def standardScalars : List String := ["String", "Int", "Float", "Boolean", "ID"]

end EntityGraph.Interface
