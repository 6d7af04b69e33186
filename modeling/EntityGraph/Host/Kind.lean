/-!
# Host types

A host type is the class of a host value. It is one of the built-in classes, a class that the
application declares, the class `Any`, one of the three classes through which a schema describes
itself, or the record class of an entity type. Host types are compared by identity, which here is
equality: an application's classes have distinct names, and so have the entity types of a schema.
-/

namespace EntityGraph

/-- The built-in classes. -/
inductive Builtin where
  | bool | int | float | complex | str | bytes | object | list | tuple | dict | set | frozenSet
  | decimal | date | timestamp | span | zone | uuid | celsius | noneType | orderedDict
  | function | builtinFunction | method | methodDescriptor | suppliedFunction | type | genericAlias
  /-- The class of parametrized hints other than those of built-in classes. -/
  | hintAlias
  | proxy | undefined | unionType | slice | mappingProxy | keysView | valuesView | itemsView
  /-- The classes of what classes hold to describe the attributes of their instances. -/
  | getSetDescriptor | memberDescriptor | property | tupleGetter
  /-- The class of what is known of how a UUID was made. -/
  | safeUuid
  deriving DecidableEq, Repr, Inhabited

/-- The class of a host value. -/
inductive HostType where
  | builtin (b : Builtin)
  /-- A class that the application declares. -/
  | declared (name : String)
  | any
  /-- The class of schemas. -/
  | schema
  /-- The class of the descriptions of entity types. -/
  | entityType
  /-- The class of the descriptions of fields. -/
  | field
  /-- The class of the descriptions of queries. -/
  | query
  /-- The record class of an entity type, under the type's name. -/
  | record (typeName : String)
  /-- The class of a kind of expression. -/
  | expression (kind : String)
  deriving DecidableEq, Repr, Inhabited

namespace Builtin

/-- The name of a built-in class. -/
def name : Builtin → String
  | bool => "bool"
  | int => "int"
  | float => "float"
  | complex => "complex"
  | str => "str"
  | bytes => "bytes"
  | object => "object"
  | list => "list"
  | tuple => "tuple"
  | dict => "dict"
  | set => "set"
  | frozenSet => "frozenset"
  | decimal => "Decimal"
  | date => "date"
  | timestamp => "datetime"
  | span => "timedelta"
  | zone => "timezone"
  | uuid => "UUID"
  | celsius => "Celsius"
  | noneType => "NoneType"
  | orderedDict => "OrderedDict"
  | function => "function"
  | builtinFunction => "builtin_function_or_method"
  | method => "method"
  | methodDescriptor => "method_descriptor"
  | suppliedFunction => "partial"
  | type => "type"
  | genericAlias => "GenericAlias"
  | hintAlias => "_GenericAlias"
  | proxy => "ExpressionProxy"
  | undefined => "UndefinedType"
  | unionType => "UnionType"
  | slice => "slice"
  | mappingProxy => "mappingproxy"
  | keysView => "dict_keys"
  | valuesView => "dict_values"
  | itemsView => "dict_items"
  | getSetDescriptor => "getset_descriptor"
  | memberDescriptor => "member_descriptor"
  | property => "property"
  | tupleGetter => "_tuplegetter"
  | safeUuid => "SafeUUID"

/-- The package under which the classes of a schema and of recording are shown. -/
def homePackage : String := "graphql_queryable"

/-- The module that holds a built-in class, if it is not the default one. -/
def home : Builtin → Option String
  | date | timestamp | span | zone => some "datetime"
  | uuid | safeUuid => some "uuid"
  | decimal => some "decimal"
  | orderedDict => some "collections"
  | suppliedFunction => some "functools"
  | genericAlias | unionType => some "types"
  | hintAlias => some "typing"
  | tupleGetter => some "_collections"
  | proxy => some (homePackage ++ ".expression_tree.capture")
  | celsius => some "host"
  | _ => none

/-- The name of a built-in class as the host's own faults give it: those of compiled modules carry
the name of the module. -/
def fullName (b : Builtin) : String :=
  match b with
  | date | timestamp | span | zone => "datetime." ++ b.name
  | decimal => "decimal.Decimal"
  | genericAlias | unionType => "types." ++ b.name
  | tupleGetter => "_collections._tuplegetter"
  | orderedDict => "collections.OrderedDict"
  | suppliedFunction => "functools.partial"
  | b => b.name

/-- A built-in class and the classes that it extends, in the order of look-up. -/
def lineage : Builtin → List Builtin
  | object => [object]
  | bool => [bool, int, object]
  | timestamp => [timestamp, date, object]
  | orderedDict => [orderedDict, dict, object]
  | b => [b, object]

/-- The name of the attribute that temperatures are made with. -/
def degrees : String := "degrees"

end Builtin

namespace HostType

/-- The name of a host type. -/
def name : HostType → String
  | builtin b => b.name
  | declared n => n
  | any => "Any"
  | schema => "QueryableSchema"
  | entityType => "EntityTypeDescriptor"
  | field => "FieldDescriptor"
  | query => "QueryDescriptor"
  | record typeName => typeName
  | expression kind => kind

/-- The name of a host type as the host's own faults give it. -/
def fullName : HostType → String
  | builtin b => b.fullName
  | t => t.name

/-- The module that holds a host type, if it is not the default one. -/
def home : HostType → Option String
  | builtin b => b.home
  | declared _ => some "host"
  | any => some "typing"
  | schema => some (Builtin.homePackage ++ ".schema.schema")
  | entityType | field | query => some (Builtin.homePackage ++ ".schema.descriptors")
  | record _ => some (Builtin.homePackage ++ ".schema.projection")
  | expression _ => some (Builtin.homePackage ++ ".expression_tree.expressions")

/-- The name of a host type behind that of its module. -/
def written (t : HostType) : String := t.home.elim t.name fun m => m ++ "." ++ t.name

/-- A host type as messages show it. -/
def shown : HostType → String
  | any => any.written
  | t => "<class '" ++ t.written ++ "'>"

/-- Primitive host types: their values have no parts that a query could select. -/
def isPrimitive : HostType → Bool
  | builtin b =>
    [.bool, .int, .float, .complex, .str, .bytes, .decimal, .date, .timestamp, .uuid].contains b
  | _ => false

/-- The built-in classes that can be named, with the names of the classes of a schema. -/
def named : List HostType :=
  [.bool, .int, .float, .complex, .str, .bytes, .object, .list, .tuple, .dict, .set, .decimal,
    .date, .timestamp, .uuid, .celsius, .noneType, .orderedDict].map builtin
    ++ [any, schema, entityType, field]

/-- The host type with a name: one of those above, or else a declared class. -/
def ofName (n : String) : HostType :=
  (named.find? fun t => t.name == n).getD (declared n)

end HostType

end EntityGraph
