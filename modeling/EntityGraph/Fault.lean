import EntityGraph.Expr.Fault
import EntityGraph.Schema.Basic
import EntityGraph.Calendar.Reading

/-!
# Faults

Everything that can go wrong is a cause of its own and keeps what it is about. Faults of the
library's own rules have a text; faults of the host, such as an operator that does not apply to its
operands, have one only inside other texts.
-/

namespace EntityGraph

/-- The kinds of faults that a caller can tell apart. -/
inductive FaultKind where
  | assertion | missingAttribute | compilation | duplicate | evaluation | frozen | index
  | invalidArgument | missingKey | lifecycle | malformedField | unsupported | overflow | parsing
  | invalidSchema | wrongType | unknownType | invalidDocument | wrongValue | zeroDivision | language
  | tooDeep | unboundName | layout | memory | badDecimal | decimalZeroDivision | decimalOverflow
  | encoding | decoding | unknownCoding
  deriving DecidableEq, Repr, Inhabited

/-- What a schema is asked to do when it may no longer change. -/
inductive Change where
  | type (host : HostType)
  | query (name : String)
  | field (name : String)
  | propertyField
  | allFields
  | scalar (kind : WireKind)

/-- What owns an argument shape: a field of a type, or a query. -/
inductive Owner where
  | field (name typeName : String)
  | query (name : String)

/-- Why something failed. -/
inductive Fault where
  /-- A fault of the host, with its kind and its text. -/
  | host (kind : FaultKind) (text : String)
  /-- An expression cannot be built. -/
  | tree (f : TreeFault Value)
  -- Capturing
  /-- A function takes another number of arguments than it is captured with. -/
  | captureArity (expected : Nat) (function : Value) (arity : Nat)
  | proxyTruth
  | proxyIteration
  | proxyAssignment (name : String)
  | proxyProtocol (name : String)
  | membershipArgs (name : String) (args : List Value)
  -- Evaluating
  | unbound (p : Param)
  | bindingCount (params : List Param) (values : List Value)
  | missingSequence (op : SeqOp) (e : Expr Value)
  | noElement (e : Expr Value)
  | elementLambda (e : Expr Value)
  | unknownOperator (symbol : String)
  -- Scalars and arguments
  | wireValue (kind : WireKind) (found : Value)
  | timeInDate (text : String) (reading : Calendar.Timestamp)
  | zoneInTimestamp (text : String) (reading : Calendar.Timestamp)
  | scalarHost (translate : Value)
  | scalarExists (name : String)
  | badShape (found : Value)
  | argumentsGiven (names : List String)
  | unexpectedArguments (names : List String) (expected : List Value)
  | missingArguments (names : List String)
  -- Declaring
  | completedFor (change : Change)
  | completedTwice
  | typeExists (host : HostType)
  | typeNameExists (name : String) (owner host : HostType)
  | typeUnknown (host : HostType)
  | fieldExists (name typeName : String)
  | queryReserved (name : String)
  | queryExists (name : String)
  | queryLambda (e : Expr Value)
  | fieldLambda (typeName : String) (e : Expr Value)
  | selectorCapture (typeName : String) (cause : Fault)
  | selectorShape (typeName : String) (body : Expr Value)
  | sourceCount (name : String) (both : Bool)
  | postExpression (name : String)
  | postValue (name : String)
  -- Completing
  | noQueries
  | scalarFields (typeName : String) (fields : List String)
  | noFields (typeName : String)
  | argumentType (owner : Owner) (argument typeName : String)
  | projectScalar (typeName : String)
  | notCompleted
  | noInterface
  -- Records
  | recordMembers (typeName : String) (unexpected : List Value) (members : List String)
  | recordAttribute (typeName name : String)
  | notPostField (name typeName : String) (post : List String)
  -- Requests
  | queryUnknown (name : String) (queries : List String)
  | fieldUnknown (typeName name : String) (fields : List String)
  | scalarSelection (field typeName scalar : String)
  | objectSelection (field typeName object : String)
  | emptySelection (typeName : String)
  | noProjection (typeName : String)
  | querySelection (query scalar : String)
  | fieldExpression (field typeName : String) (e : Expr Value)
  | queryExpression (query : String) (e : Expr Value)
  | singlePagination (query : String) (offset limit : Value)
  | paginationValue (query parameter : String) (found : Value)
  | selectedUnknown (name typeName : String)
  | aliasedField (name output : String)
  -- Documents
  | parsing
  | invalidDocument
  | operationCount (count : Nat)
  | notQuery (operation : String)

namespace Fault

/-- The host cannot apply something to values of these types. -/
def wrongType (text : String) : Fault := host .wrongType text

/-- An instance of a class has no value for one of its fields. -/
def unset (className field : String) : Fault :=
  host .missingAttribute ("'" ++ className ++ "' object has no attribute '" ++ field ++ "'")

/-- Names in a row, the last one after a conjunction. -/
def listedNames (names : List String) : String :=
  match names.map fun n => "'" ++ n ++ "'" with
  | [m, n] => m ++ " and " ++ n
  | ns =>
    if ns.length < 2 then String.join ns
    else Text.commaSeparated ns.dropLast ++ ", and " ++ ns.getLast?.getD ""

/-- A noun for so many things. -/
def plural (count : Nat) (noun : String) : String := if count == 1 then noun else noun ++ "s"

/-- A function with these parameters, of which the last ones have defaults, is called with another
number of arguments. -/
def argumentCount (function : String) (params : List String) (defaults given : Nat) : Fault :=
  let needed := params.length - defaults
  if given < needed then
    let missing := (params.take needed).drop given
    wrongType (function ++ "() missing " ++ toString missing.length ++ " required positional "
      ++ plural missing.length "argument" ++ ": " ++ listedNames missing)
  else
    let range := if defaults == 0 then "" else "from " ++ toString needed ++ " to "
    wrongType (function ++ "() takes " ++ range ++ toString params.length ++ " positional "
      ++ plural params.length "argument" ++ " but " ++ toString given
      ++ (if given == 1 then " was" else " were") ++ " given")

/-- A built-in function or class is called with more arguments than it takes. -/
def tooMany (function : String) (most given : Nat) : Fault :=
  wrongType (function ++ "() takes at most " ++ toString most ++ " " ++ plural most "argument"
    ++ " (" ++ toString given ++ " given)")

/-- A class of times or numbers is called with more arguments than it takes. -/
def functionTakes (most given : Nat) : Fault :=
  wrongType ("function takes at most " ++ toString most ++ " arguments (" ++ toString given
    ++ " given)")

/-- A built-in function or class of the other sort is called with another number of arguments than
it expects. -/
def expected (function : String) (least most given : Nat) : Fault :=
  let (bound, count) := if given < least then ("least", least) else ("most", most)
  wrongType (function ++ " expected " ++ (if least == most then "" else "at " ++ bound ++ " ")
    ++ toString count ++ " " ++ plural count "argument" ++ ", got " ++ toString given)

/-- Something that is no integer stands where one is needed. -/
def notInteger (typeName : String) : Fault :=
  wrongType ("'" ++ typeName ++ "' object cannot be interpreted as an integer")

/-- The kind of a fault in building an expression. -/
def treeKind : TreeFault Value → FaultKind
  | .memberName _ | .methodName _ | .unaryOperator _ | .binaryOperator _ | .repeatedParam _
  | .arity .. | .seqOperator _ | .argumentCount .. | .repeatedMember .. => .wrongValue
  | .replacedLambda .. => .assertion
  | _ => .wrongType

/-- The kind of a fault. -/
def kind : Fault → FaultKind
  | host k _ => k
  | tree f => treeKind f
  | captureArity .. | proxyTruth | proxyIteration | proxyAssignment _ | membershipArgs .. =>
    .wrongType
  | proxyProtocol _ | recordAttribute .. => .missingAttribute
  | unbound _ | missingSequence .. | noElement _ => .evaluation
  | bindingCount .. | elementLambda _ | badShape _ | sourceCount .. | postExpression _
  | postValue _ | projectScalar _ | noInterface | recordMembers .. | notPostField ..
  | noProjection _ | fieldExpression .. | queryExpression .. | selectedUnknown .. => .assertion
  | unknownOperator _ => .unsupported
  | wireValue .. | argumentsGiven _ | unexpectedArguments .. | missingArguments _
  | singlePagination .. | paginationValue .. => .invalidArgument
  | timeInDate .. | zoneInTimestamp .. | scalarHost _ => .wrongValue
  | scalarExists _ | typeExists _ | typeNameExists .. | fieldExists .. | queryReserved _
  | queryExists _ => .duplicate
  | completedFor _ | completedTwice | notCompleted => .lifecycle
  | typeUnknown _ => .unknownType
  | queryLambda _ | fieldLambda .. | selectorCapture .. | selectorShape .. => .malformedField
  | noQueries | scalarFields .. | noFields _ | argumentType .. => .invalidSchema
  | queryUnknown .. | fieldUnknown .. | scalarSelection .. | objectSelection ..
  | emptySelection _ | querySelection .. | aliasedField .. | operationCount _ | notQuery _ =>
    .compilation
  | parsing => .parsing
  | invalidDocument => .invalidDocument

end Fault

/-- A computation that gives a result or fails. -/
abbrev Outcome := Except Fault

end EntityGraph
