/-!
# Expressions

An expression is a deferred computation over a data context. Its leaves are parameters and
literals; the other nodes read members and items, call methods and functions, apply operators,
choose, abstract over parameters and apply such an abstraction, work on sequences and construct
records.

Expressions are generic in the type of the values they mention. What can be said without looking
at a value, such as which parameters are free or what a substitution does, is said here once for
every type of values.

Parameters are told apart by identity, never by name. The identity is a number; two parameters of
one name are different parameters unless their numbers agree. An expression built in one place can
therefore be put into another as long as both mention the same parameter.
-/

namespace EntityGraph

/-- A placeholder for a value that is supplied later: a number that identifies it and a name that
is only shown. -/
structure Param where
  id : Nat
  name : String
  deriving DecidableEq, Repr, Inhabited

/-- Operators on one operand. -/
inductive UnaryOp where
  | not
  | neg
  deriving DecidableEq, Repr, Inhabited

/-- Operators on two operands. -/
inductive BinaryOp where
  | eq | ne | gt | ge | lt | le | contains | inCollection | and | or | add | sub | mul | div | mod
  deriving DecidableEq, Repr, Inhabited

/-- Operators on sequences. -/
inductive SeqOp where
  | filter | select | first | firstOrDefault | count | any | orderBy | orderByDescending | take
  | skip
  deriving DecidableEq, Repr, Inhabited

/-- The sort of a node of an expression. -/
inductive NodeKind where
  | param | lit | member | item | method | func | unary | binary | cond | lambda | invoke | seq
  | record
  deriving DecidableEq, Repr, Inhabited

/-- Expressions over values of type `V`. -/
inductive Expr (V : Type) where
  | param (p : Param)
  /-- A constant value. -/
  | lit (value : V)
  /-- The one shared literal of the missing value, which compositions insert. -/
  | null
  /-- Reads a member of the target. -/
  | member (target : Expr V) (name : String)
  /-- Reads the target at a key or an index. -/
  | item (target key : Expr V)
  /-- Calls a method of the target. -/
  | method (target : Expr V) (name : String) (args : List (Expr V))
  /-- Calls the value of an expression. -/
  | func (function : Expr V) (args : List (Expr V))
  | unary (op : UnaryOp) (inner : Expr V)
  | binary (op : BinaryOp) (left right : Expr V)
  /-- The second expression if the first is true, the third otherwise. -/
  | cond (test yes no : Expr V)
  /-- A function of the parameters. The parameters are declared here, not used. -/
  | lambda (params : List Param) (body : Expr V)
  /-- Applies a lambda; each argument is evaluated once. -/
  | invoke (function : Expr V) (args : List (Expr V))
  /-- An operation on the sequence that the source produces. -/
  | seq (op : SeqOp) (source : Expr V) (args : List (Expr V))
  /-- A record of a record class with a value for each member. -/
  | record (type : V) (fields : List (V × Expr V))
  deriving Inhabited

namespace UnaryOp

/-- How an operator is written. -/
def symbol : UnaryOp → String
  | not => "!"
  | neg => "-"

/-- The operator that is written so. -/
def ofSymbol? (s : String) : Option UnaryOp :=
  [not, neg].find? fun op => op.symbol == s

end UnaryOp

namespace BinaryOp

/-- How an operator is written. -/
def symbol : BinaryOp → String
  | eq => "="
  | ne => "!="
  | gt => ">"
  | ge => ">="
  | lt => "<"
  | le => "<="
  | contains => "contains"
  | inCollection => "in_collection"
  | and => "&&"
  | or => "||"
  | add => "+"
  | sub => "-"
  | mul => "*"
  | div => "/"
  | mod => "%"

/-- All operators on two operands. -/
def all : List BinaryOp :=
  [eq, ne, gt, ge, lt, le, contains, inCollection, and, or, add, sub, mul, div, mod]

/-- The operator that is written so. -/
def ofSymbol? (s : String) : Option BinaryOp :=
  all.find? fun op => op.symbol == s

/-- Operators of arithmetic: a missing operand makes their result missing. -/
def isArithmetic : BinaryOp → Bool
  | add | sub | mul | div | mod => true
  | _ => false

/-- Operators whose result is a truth value whatever their operands are. -/
def isBoolean (op : BinaryOp) : Bool := !op.isArithmetic

end BinaryOp

namespace SeqOp

/-- How an operator is named. -/
def symbol : SeqOp → String
  | filter => "where"
  | select => "select"
  | first => "first"
  | firstOrDefault => "first_or_default"
  | count => "count"
  | any => "any"
  | orderBy => "order_by"
  | orderByDescending => "order_by_descending"
  | take => "take"
  | skip => "skip"

/-- All operators on sequences. -/
def all : List SeqOp :=
  [filter, select, first, firstOrDefault, count, any, orderBy, orderByDescending, take, skip]

/-- The operator with this name. -/
def ofSymbol? (s : String) : Option SeqOp :=
  all.find? fun op => op.symbol == s

/-- The fewest arguments of an operator. -/
def minArgs : SeqOp → Nat
  | first | firstOrDefault | count | any => 0
  | _ => 1

/-- Whether the argument of an operator is a function of one element, and not a plain value. -/
def takesFunction : SeqOp → Bool
  | take | skip => false
  | _ => true

/-- Whether an operator passes a missing sequence on instead of refusing it. -/
def passesMissing : SeqOp → Bool
  | first | count | any => false
  | _ => true

end SeqOp

namespace NodeKind

/-- The name of a sort of node. -/
def name : NodeKind → String
  | param => "Parameter"
  | lit => "Literal"
  | member => "MemberAccess"
  | item => "ItemAccess"
  | method => "MethodCall"
  | func => "FunctionCall"
  | unary => "UnaryTransformation"
  | binary => "BinaryComposition"
  | cond => "TernaryConditional"
  | lambda => "Lambda"
  | invoke => "Invocation"
  | seq => "SequenceOperation"
  | record => "RecordConstruction"

/-- All sorts of nodes. -/
def all : List NodeKind :=
  [param, lit, member, item, method, func, unary, binary, cond, lambda, invoke, seq, record]

/-- The number of parts that a sort of node is made from. -/
def partCount : NodeKind → Nat
  | param | lit => 1
  | member | item | func | unary | lambda | invoke | record => 2
  | method | binary | cond | seq => 3

/-- The sort of node with this name. -/
def ofName? (s : String) : Option NodeKind :=
  all.find? fun k => k.name == s

end NodeKind

namespace Expr

variable {V : Type}

/-- The sort of an expression's root. -/
def kind : Expr V → NodeKind
  | param _ => .param
  | lit _ | null => .lit
  | member .. => .member
  | item .. => .item
  | method .. => .method
  | func .. => .func
  | unary .. => .unary
  | binary .. => .binary
  | cond .. => .cond
  | lambda .. => .lambda
  | invoke .. => .invoke
  | seq .. => .seq
  | record .. => .record

/-- The parameters of a lambda. -/
def lambdaParams? : Expr V → Option (List Param)
  | lambda ps _ => some ps
  | _ => none

/-- Whether an expression is a lambda of so many parameters. -/
def isLambdaOf (arity : Nat) (e : Expr V) : Bool :=
  e.lambdaParams?.any fun ps => ps.length == arity

end Expr

end EntityGraph
