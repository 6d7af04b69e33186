import EntityGraph.Expr.Fault

/-!
# Checked nodes

Three sorts of nodes put demands on expressions that are expressions already: a lambda declares
each parameter once, an application supplies as many arguments as its lambda has parameters, and an
operation on a sequence takes its own number of arguments, which for most operators are lambdas of
one parameter. An expression all of whose nodes meet these demands is well formed.
-/

namespace EntityGraph.Expr

variable {V : Type}

/-- Whether each parameter is declared once. -/
def areDistinct : List Param → Bool
  | [] => true
  | p :: ps => !ps.contains p && areDistinct ps

/-- A lambda over distinct parameters. -/
def makeLambda (ps : List Param) (body : Expr V) : Except (TreeFault V) (Expr V) :=
  if areDistinct ps then .ok (lambda ps body) else .error (.repeatedParam ps)

/-- An application of a lambda to as many arguments as it has parameters. -/
def makeInvoke (ps : List Param) (body : Expr V) (args : List (Expr V)) :
    Except (TreeFault V) (Expr V) :=
  if ps.length == args.length then .ok (invoke (lambda ps body) args)
  else .error (.arity ps body args)

/-- An operation on a sequence with arguments that suit the operator. -/
def makeSeq (op : SeqOp) (source : Expr V) (args : List (Expr V)) :
    Except (TreeFault V) (Expr V) :=
  if args.length < op.minArgs || 1 < args.length then .error (.argumentCount op args)
  else
    match if op.takesFunction then args.find? (!·.isLambdaOf 1) else none with
    | some arg => .error (.elementFunction op arg)
    | none => .ok (seq op source args)

mutual

/-- Whether every node of an expression meets the demands of its sort. -/
def isWellFormed : Expr V → Bool
  | param _ | lit _ | null => true
  | member t n => !n.isEmpty && t.isWellFormed
  | item t k => t.isWellFormed && k.isWellFormed
  | method t n as => !n.isEmpty && t.isWellFormed && areWellFormed as
  | func f as => f.isWellFormed && areWellFormed as
  | unary _ e => e.isWellFormed
  | binary _ l r => l.isWellFormed && r.isWellFormed
  | cond p y n => p.isWellFormed && y.isWellFormed && n.isWellFormed
  | lambda ps b => areDistinct ps && b.isWellFormed
  | invoke f as => f.isLambdaOf as.length && f.isWellFormed && areWellFormed as
  | seq op s as =>
    op.minArgs ≤ as.length && as.length ≤ 1
      && (!op.takesFunction || as.all (isLambdaOf 1)) && s.isWellFormed && areWellFormed as
  | record _ fs => fieldsWellFormed fs

/-- Whether several expressions are well formed. -/
def areWellFormed : List (Expr V) → Bool
  | [] => true
  | e :: es => e.isWellFormed && areWellFormed es

/-- Whether the members of a record are well formed. -/
def fieldsWellFormed : List (V × Expr V) → Bool
  | [] => true
  | (_, e) :: fs => e.isWellFormed && fieldsWellFormed fs

end

end EntityGraph.Expr
