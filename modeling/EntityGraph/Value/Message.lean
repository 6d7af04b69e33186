import EntityGraph.Fault
import EntityGraph.Value.Legible

/-!
# The texts of faults

Every fault of the library has one text, which is written here and nowhere else. A text shows the
values that the fault is about; if one of them cannot be shown, there is that fault instead.
-/

namespace EntityGraph

section

variable (w : World)

/-- A class name and a value, as messages about a wrong part show it. -/
def typed (v : Value) : String := v.typeName w ++ " " ++ v.plain w

/-- Expressions as one tuple. -/
def shownArgs (args : List (Expr Value)) : String := (Value.tuple (args.map Value.ofTree)).shown w

namespace Place

/-- What a message calls the place of an expression. -/
def text : Place → String
  | target => "target, got: "
  | function => "function, got: "
  | inner => "inner_expression, got "
  | source => "source, got: "
  | body => "body, got: "

end Place

namespace Group

/-- What a message calls a group of expressions. -/
def text : Group → String
  | itemOperands => "ItemAccess operands"
  | methodArgs => "MethodCall arguments"
  | functionArgs => "FunctionCall arguments"
  | binaryOperands => "BinaryComposition operands"
  | condOperands => "TernaryConditional operands"
  | invokeArgs => "Invocation arguments"
  | seqArgs => "SequenceOperation arguments"

end Group

namespace TreeFault

/-- The text of a fault in building an expression. -/
def message : TreeFault Value → String
  | paramName v => "Expected str name, got: " ++ typed w v
  | literalTree e => "Literal values cannot be Expression objects: " ++ e.shown w
  | notTree place v => "Expected Expression " ++ place.text ++ typed w v
  | memberName v => "Expected a non-empty member name, got: " ++ v.plain w
  | methodName v => "Expected a non-empty method name, got: " ++ v.plain w
  | groupValue g v => "Expected " ++ g.text ++ " to be a tuple, got: " ++ typed w v
  | groupMember g v =>
    "Expected " ++ g.text ++ " to contain only Expression objects, got: " ++ typed w v
  | unaryOperator v => "Unrecognized operator value: " ++ typed w v
  | operatorType v => "Expected str operator, got " ++ typed w v
  | binaryOperator v => "Unrecognized operator value: " ++ typed w v
  | paramsValue v => "Expected tuple of parameters, got: " ++ v.plain w
  | notParam v => "Expected Parameter, got: " ++ typed w v
  | repeatedParam ps =>
    "Lambda parameters must be distinct: " ++ shownArgs w (ps.map Expr.param)
  | notLambda v => "Expected Lambda function, got: " ++ typed w v
  | arity ps b as =>
    "Lambda of arity " ++ toString ps.length ++ " invoked with " ++ toString as.length
      ++ " arguments: " ++ (Expr.invoke (.lambda ps b) as).shown w
  | seqOperator v => "Unrecognized sequence operator: " ++ v.plain w
  | argumentCount op as =>
    "Sequence operator \"" ++ op.symbol ++ "\" takes between " ++ toString op.minArgs
      ++ " and 1 arguments, got: " ++ shownArgs w as
  | elementFunction op e =>
    "Sequence operator \"" ++ op.symbol ++ "\" expects Lambda arguments of arity 1, got: "
      ++ e.shown w
  | recordType v => "Expected a record class, got: " ++ v.plain w
  | recordFields v => "Expected tuple of fields, got: " ++ v.plain w
  | repeatedMember n fs =>
    "Duplicate member " ++ n.plain w ++ " in RecordConstruction: " ++ fs.shown w
  | memberValue n v =>
    "Expected Expression for member " ++ n.plain w ++ ", got: " ++ v.plain w
  | replacedLambda b e =>
    "Visitor replaced the Lambda of an Invocation with a non-Lambda expression, this is a bug: "
      ++ b.shown w ++ " " ++ e.shown w

/-- The values that the text of a fault shows, in order. -/
def subjects : TreeFault Value → List Value
  | paramName v | notTree _ v | memberName v | methodName v | groupValue _ v | groupMember _ v
  | unaryOperator v | operatorType v | binaryOperator v | paramsValue v | seqOperator v
  | recordType v | recordFields v | notParam v | notLambda v => [v]
  | literalTree e | elementFunction _ e => [.ofTree e]
  | repeatedParam _ => []
  | arity ps b as => [.ofTree (.invoke (.lambda ps b) as)]
  | argumentCount _ as => as.map Value.ofTree
  | repeatedMember n fs => [n, fs]
  | memberValue n v => [n, v]
  | replacedLambda b e => [.ofTree b, .ofTree e]

end TreeFault

end

namespace WireKind

/-- The name of a wire kind. -/
def name : WireKind → String
  | string => "string"
  | integer => "integer"
  | float => "float"
  | boolean => "boolean"

/-- The wire kind with this name. -/
def ofName? (s : String) : Option WireKind :=
  [string, integer, float, boolean].find? fun k => k.name == s

/-- A wire kind with its article. -/
def withArticle : WireKind → String
  | integer => "an integer"
  | k => "a " ++ k.name

end WireKind

namespace Change

/-- What a change would do. -/
def text : Change → String
  | type host => "add type " ++ host.shown
  | query n => "add query " ++ n
  | field n => "add field " ++ n
  | propertyField => "add a property field"
  | allFields => "add all fields"
  | scalar k => "add " ++ k.withArticle ++ " scalar"

end Change

namespace Owner

/-- What owns an argument shape. -/
def text : Owner → String
  | field n t => "Field " ++ n ++ " of type " ++ t
  | query n => "Query " ++ n

end Owner

namespace Fault

/-- What a schema says of something that only a mistake of its own can cause. -/
def ownMistake : String := " This is a bug."

/-- The text of a fault. -/
def message (w : World) : Fault → String
  | host _ text => text
  | tree f => f.message w
  | captureArity expected f arity =>
    "Expected a callable taking " ++ toString expected ++ " positional arguments, but "
      ++ f.plain w ++ " takes " ++ toString arity ++ "."
  | proxyTruth =>
    "Captured expressions cannot be used as booleans. "
      ++ "Use \"&\", \"|\" and \"~\" instead of \"and\", \"or\" and \"not\"."
  | proxyIteration =>
    "Captured expressions cannot be iterated; use select() or where() instead."
  | proxyAssignment n => "Captured expressions are read-only; cannot assign " ++ n ++ "."
  | proxyProtocol n => n
  | membershipArgs n args =>
    n ++ "() takes exactly one argument, got: " ++ (Value.tuple args).shown w
  | unbound p =>
    "Parameter " ++ p.shown ++ " is not bound in the current scope. Expressions must only "
      ++ "reference the schema's context parameter and the parameters of their enclosing lambdas."
  | bindingCount ps vs =>
    "Attempting to bind " ++ toString ps.length ++ " parameters to " ++ toString vs.length
      ++ " values, this is a bug: " ++ shownArgs w (ps.map Expr.param) ++ " "
      ++ (Value.tuple vs).shown w
  | missingSequence op e =>
    "Cannot apply sequence operator \"" ++ op.symbol ++ "\" to a null sequence: " ++ e.shown w
  | noElement e => "Sequence contains no matching elements: " ++ e.shown w
  | elementLambda e =>
    "Expected a Lambda of arity 1 as a sequence operator argument, this is a bug: " ++ e.shown w
  | unknownOperator s => "Operator " ++ s ++ " is not currently implemented."
  | wireValue k v =>
    "Expected a raw " ++ k.name ++ " value, got " ++ v.shown w ++ " of type " ++ v.typeName w
      ++ " instead."
  | timeInDate text r =>
    "Expected an ISO-8601 date string in 'YYYY-MM-DD' format, but got a datetime string with a "
      ++ "non-empty time component. This is not supported, since converting it to a date would "
      ++ "result in an implicit loss of precision. Received value " ++ Text.quoted text
      ++ ", parsed as " ++ r.textWith " " ++ "."
  | zoneInTimestamp text r =>
    "Expected a timezone-naive datetime value, but got a timezone-aware datetime string. This is "
      ++ "not supported, since discarding the timezone component would result in an implicit "
      ++ "loss of precision. Received value " ++ Text.quoted text ++ ", parsed as "
      ++ r.textWith " " ++ "."
  | scalarHost f =>
    "Cannot determine the host type of scalar translator " ++ f.plain w ++ ". Pass host_type "
      ++ "explicitly, or annotate the return type of the translator."
  | scalarExists n => "A scalar type named " ++ n ++ " has already been registered."
  | badShape v =>
    "Unsupported argument shape " ++ v.plain w ++ ". Expected a dict of default values, a "
      ++ "dataclass, or a NamedTuple class."
  | argumentsGiven ns => "Expected no arguments, but got: " ++ Text.quotedList ns
  | unexpectedArguments ns expected =>
    "Unexpected arguments " ++ Text.quotedList ns ++ ". Expected only arguments among: "
      ++ (Value.list expected).shown w
  | missingArguments ns => "Missing required arguments: " ++ Text.quotedList ns
  | completedFor c =>
    "Cannot " ++ c.text ++ ": the schema has already been completed and is read-only."
  | completedTwice => "The schema has already been completed."
  | typeExists t => "Host type " ++ t.shown ++ " has already been added to the schema."
  | typeNameExists n owner t =>
    "A type named " ++ n ++ " has already been added to the schema, for host type "
      ++ owner.shown ++ ". Pass a distinct name for host type " ++ t.shown ++ "."
  | typeUnknown t => "Host type " ++ t.shown ++ " has not been added to the schema."
  | fieldExists n t =>
    "A field named " ++ n ++ " has already been added to type " ++ t ++ "."
  | queryReserved n =>
    "Query name " ++ n ++ " is reserved for the introspection query of the same name, declared "
      ++ "when the schema is completed."
  | queryExists n => "A query named " ++ n ++ " has already been added to the schema."
  | queryLambda e =>
    "Query expressions must be Lambdas over the schema's context parameter only, got: "
      ++ e.shown w
  | fieldLambda t e =>
    "Field expressions on type " ++ t ++ " must be Lambdas over the schema's context parameter "
      ++ "and an entity parameter, got: " ++ e.shown w
  | selectorCapture t cause =>
    "Property selector on type " ++ t ++ " could not be captured as an expression: "
      ++ cause.message w
  | selectorShape t e =>
    "Property selectors on type " ++ t ++ " must directly access a member of their argument, "
      ++ "like lambda entity: entity.member, but got: " ++ e.shown w
  | sourceCount n both =>
    let found := if both then "<fn> and <fn>" else "None and None"
    "Expected exactly one of expression_generator and post_function for field " ++ n ++ ", got "
      ++ found ++ "."
  | postExpression n =>
    "Attempted to generate an expression for post field " ++ n ++ ", which is computed after the "
      ++ "query is materialized." ++ ownMistake
  | postValue n =>
    "Attempted to compute a post value for field " ++ n ++ ", which is computed inside the query "
      ++ "expression." ++ ownMistake
  | noQueries => "The schema must declare at least one query, but declares none."
  | scalarFields t fs =>
    "Scalar type " ++ t ++ " must not declare any fields, but declares: " ++ Text.quotedList fs
  | noFields t => "Type " ++ t ++ " must declare at least one field, but declares none."
  | argumentType owner a t =>
    owner.text ++ " declares argument " ++ a ++ " of the non-scalar type " ++ t
      ++ ", but arguments can only have scalar types."
  | projectScalar t =>
    "Attempted to synthesize a projection type for scalar type " ++ t ++ ". Scalar types are "
      ++ "projected as their own host type." ++ ownMistake
  | notCompleted => "The schema must be completed before its queries can be executed."
  | noInterface =>
    "The schema has not been completed, so it has no graphql-core mirror to print."
  | recordMembers t found members =>
    "Record of type " ++ t ++ " constructed with unexpected members " ++ (Value.list found).shown w
      ++ ". Expected only members among: " ++ Text.quotedList members
  | recordAttribute t n => t ++ " record has no member " ++ n
  | notPostField n t post =>
    "Attempted to set " ++ n ++ " on a record of type " ++ t ++ ", but it is not a post field. "
      ++ "Post fields: " ++ Text.quotedList post
  | queryUnknown n qs =>
    "The schema has no query named " ++ n ++ ". Available queries: " ++ Text.quotedList qs
  | fieldUnknown t n fs =>
    "Type " ++ t ++ " has no field named " ++ n ++ ". Available fields: " ++ Text.quotedList fs
  | scalarSelection f t s =>
    "Field " ++ f ++ " of type " ++ t ++ " has the scalar type " ++ s
      ++ ", and cannot have fields selected beneath it."
  | objectSelection f t o =>
    "Field " ++ f ++ " of type " ++ t ++ " has the object type " ++ o
      ++ ", and must have at least one field selected beneath it."
  | emptySelection t => "Values of type " ++ t ++ " must have at least one field selected."
  | noProjection t =>
    "Type " ++ t ++ " has no projection type. The schema must be completed before its queries "
      ++ "are composed."
  | querySelection q s =>
    "Query " ++ q ++ " produces values of the scalar type " ++ s
      ++ ", and cannot have fields selected beneath it."
  | fieldExpression f t e =>
    "Expression of field " ++ f ++ " of type " ++ t ++ " is not a Lambda over the schema's "
      ++ "context parameter and an entity parameter: " ++ e.shown w
  | queryExpression q e =>
    "Expression of query " ++ q ++ " is not a Lambda over the schema's context parameter: "
      ++ e.shown w
  | singlePagination q offset limit =>
    "Query " ++ q ++ " produces a single value and cannot be paginated, but got offset "
      ++ offset.plain w ++ " and limit " ++ limit.plain w ++ "."
  | paginationValue q p v =>
    "Query " ++ q ++ " requires a non-negative integer " ++ p ++ ", but got: " ++ v.plain w
  | selectedUnknown n t =>
    "Selected field " ++ n ++ " does not exist on type " ++ t ++ ", but the query was composed."
      ++ ownMistake
  | aliasedField n output =>
    "Aliases are only supported on the root fields of a query, but field " ++ n
      ++ " is aliased as " ++ output ++ "."
  | parsing => "The request document could not be parsed."
  | invalidDocument => "The request document does not validate against the schema."
  | operationCount n =>
    "Expected exactly one operation definition within GraphQL input, but found " ++ toString n
      ++ ". This is not supported."
  | notQuery op =>
    "Expected a GraphQL document with a single query definition, but instead found a \"" ++ op
      ++ "\" operation. This is not supported."

/-- Whether a text shows something by its address. -/
def showsAddress (text : String) : Bool := (text.splitOn addressMark).length > 1

/-- The text of a fault where callers are shown one: faults of the host, and faults of documents
that a parser or a checker words, have none, and no text shows an address. -/
def message? (w : World) : Fault → Option String
  | host .. | parsing | invalidDocument => none
  | f => if showsAddress (f.message w) then none else some (f.message w)

/-- The values that the text of a fault shows, in order. -/
def subjects : Fault → List Value
  | tree f => f.subjects
  | captureArity _ v _ | wireValue _ v | scalarHost v | badShape v | paginationValue _ _ v => [v]
  | membershipArgs _ vs | bindingCount _ vs | unexpectedArguments _ vs | recordMembers _ vs _ => vs
  | missingSequence _ e | noElement e | elementLambda e | queryLambda e | fieldLambda _ e
  | selectorShape _ e | fieldExpression _ _ e | queryExpression _ e => [.ofTree e]
  | selectorCapture _ cause => cause.subjects
  | singlePagination _ offset limit => [offset, limit]
  | _ => []

/-- A fault as it is met: one whose text cannot show its values is the fault of showing them. -/
def seen (w : World) (f : Fault) : Fault := (f.subjects.findSome? (Value.illegible? w)).getD f

end Fault

end EntityGraph
