import EntityGraph.Expr.Basic

/-!
# Why an expression cannot be built

Every node checks its parts when it is built. A part is an expression or, where a caller supplies
something else, a plain value. The faults keep the parts that were refused, so that a message can
show them.
-/

namespace EntityGraph

/-- The place of a single expression inside a node. -/
inductive Place where
  | target | function | inner | source | body
  deriving DecidableEq, Repr

/-- The place of several expressions inside a node. -/
inductive Group where
  | itemOperands | methodArgs | functionArgs | binaryOperands | condOperands | invokeArgs | seqArgs
  deriving DecidableEq, Repr

/-- Why an expression cannot be built. -/
inductive TreeFault (V : Type) where
  /-- The name of a parameter is no text. -/
  | paramName (found : V)
  /-- A literal holds an expression. -/
  | literalTree (found : Expr V)
  /-- A plain value stands where an expression is expected. -/
  | notTree (place : Place) (found : V)
  /-- The name of a member is no text, or empty. -/
  | memberName (found : V)
  /-- The name of a method is no text, or empty. -/
  | methodName (found : V)
  /-- A plain value stands for a group of expressions. -/
  | groupValue (group : Group) (found : V)
  /-- A plain value stands among a group of expressions. -/
  | groupMember (group : Group) (found : V)
  /-- There is no such operator on one operand. -/
  | unaryOperator (found : V)
  /-- An operator on two operands is no text. -/
  | operatorType (found : V)
  /-- There is no such operator on two operands. -/
  | binaryOperator (found : V)
  /-- A plain value stands for the parameters of a lambda. -/
  | paramsValue (found : V)
  /-- Something else than a parameter is declared by a lambda. -/
  | notParam (found : V)
  /-- A lambda declares a parameter twice. -/
  | repeatedParam (params : List Param)
  /-- Something else than a lambda is applied. -/
  | notLambda (found : V)
  /-- A lambda is applied to the wrong number of arguments. -/
  | arity (params : List Param) (body : Expr V) (args : List (Expr V))
  /-- There is no such operator on sequences. -/
  | seqOperator (found : V)
  /-- An operator on sequences has too few or too many arguments. -/
  | argumentCount (op : SeqOp) (args : List (Expr V))
  /-- The argument of an operator on sequences is no function of one element. -/
  | elementFunction (op : SeqOp) (found : Expr V)
  /-- The class of a record is no class. -/
  | recordType (found : V)
  /-- A plain value stands for the members of a record. -/
  | recordFields (found : V)
  /-- A record has two members of one name. -/
  | repeatedMember (name fields : V)
  /-- A member of a record is a plain value. -/
  | memberValue (name : V) (found : V)
  /-- An update replaces an applied lambda by another expression. -/
  | replacedLambda (before : Expr V) (found : Expr V)

end EntityGraph
