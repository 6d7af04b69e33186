import EntityGraph.Value.Method

/-!
# Capturing functions as expressions

A function is captured by calling it once with recording proxies for its parameters; what it gives
back is the body of a lambda over those parameters. A function that is handed to an operation on a
sequence is captured in the same way, with a new parameter for the element. It may mention the
proxies of the functions around it, so its body then uses their parameters.

Capturing is parametric in what a call does, since the functions that are captured call others.
-/

namespace EntityGraph

namespace Value

/-- The number of arguments by place that a class takes to make an instance, if it says so. -/
def classArity? (w : World) : HostType → Option Nat
  | .builtin b =>
    match b with
    | .float | .list | .tuple | .celsius => some 1
    | .complex | .decimal => some 2
    | .uuid => some 6
    | .object => some 0
    | .proxy => some 1
    | _ => Option.none
  | .declared c =>
    match w.classes.kindOf c with
    | .record | .namedTuple => some (w.classes.fields c).length
    | _ => some 0
  | .record _ => some 1
  | .expression kind => (NodeKind.ofName? kind).map NodeKind.partCount
  | _ => Option.none

/-- The number of arguments by place that a method of a built-in class takes besides the instance.
-/
def builtinMethodArity? (b : Builtin) (name : String) : Option Nat :=
  (b.methodArities.lookup name).join

/-- The number of arguments by place that a method of a proxy takes. -/
def proxyMethodArity? (name : String) : Option Nat := (proxyMethods.lookup name).map List.length

/-- The number of arguments by place that a method takes, if it says so. Declared methods take any
number of them. A method of a class takes the instance too. -/
def methodArity? (w : World) (self : Value) (name : String) : Option Nat :=
  match self with
  | type (.builtin b) =>
    let own := builtinMethodArity? b name
    if Builtin.classMethods.contains name then own else own.map (· + 1)
  | type (.record _) => (builtinMethodArity? .orderedDict name).map (· + 1)
  | type _ => some 1
  | proxy .. => proxyMethodArity? name
  | self =>
    match (self.declaredClass? w).bind fun c => w.classes.attribute? c name with
    | some (.method _) => some 0
    | _ =>
      if (self.tupleView? w).isSome then builtinMethodArity? .tuple name
      else (self.builtin? w).bind (builtinMethodArity? · name)

/-- The number of arguments by place that a value takes when it is called. A proxy would have to be
asked whether it holds, which it refuses. -/
def arity (w : World) (v : Value) : Outcome Nat :=
  let orSilent := fun (n : Option Nat) => n.elim (.error silentFault) .ok
  match v with
  | function _ ps .. => .ok ps.length
  | closure .. | generic .. => .ok 0
  | supplied f =>
    match f with
    | function _ ps .. => .ok ps.length
    | _ => .ok 0
  | primitive p => orSilent p.arity?
  | type t => orSilent (classArity? w t)
  | method self name => orSilent (methodArity? w self name)
  | proxy .. => .error .proxyTruth
  | v => do .error (.wrongType ((← v.tellShown w) ++ " is not a callable object"))
where
  /-- The fault of asking a function that does not say how many arguments it takes. -/
  silentFault : Fault := .host .wrongValue "no signature found"

end Value

/-- The lambda that a function is, over these parameters. -/
def captureLambda (w : World) (call : Calling) (function : Value) (ps : List Param) :
    Making (Expr Value) := do
  let arity ← function.arity (← Making.now w)
  if arity != ps.length then throw (.captureArity ps.length function arity)
  let declared := ps.map (Value.ofTree ∘ .param)
  let body ← call function (← declared.mapM Value.makeProxy)
  Node.lambda (← Making.now w) (.tuple declared) body.recorded

/-- The name of the parameter that stands for an element of a sequence. -/
def elementName : String := "x"

/-- The lambda that is applied to each element of a sequence: one that was built already, or a
captured function. -/
def captureElement (w : World) (call : Calling) (function : Value) : Making (Expr Value) := do
  match function.tree? (← Making.now w) with
  | some (.lambda ps b) => return .lambda ps b
  | _ => captureLambda w call function [← newParam elementName]

/-- The operators of the two membership tests by their names. -/
def membership? (name : String) : Option BinaryOp :=
  match name with
  | "contains" => some .contains
  | "in_" => some .inCollection
  | _ => none

/-- Records a call of what a proxy stands for. Calling a member that is named like an operation on
sequences records this operation on the member's target, and likewise the two membership tests;
calling any other member records a method call. -/
def recordCall (w : World) (call : Calling) (u : Value) (args : List Value) :
    Making (Expr Value) := do
  let now ← Making.now w
  let recorded := Value.tuple (args.map Value.recorded)
  match u.tree? now with
  | some (.member target name) =>
    let target := Value.ofTree target
    match SeqOp.ofSymbol? name with
    | some op =>
      if op.takesFunction then
        let functions ← (args.filter (!·.isNone)).mapM (captureElement w call)
        Node.seqOf now op target (.tuple (functions.map Value.ofTree))
      else Node.seqOf now op target recorded
    | none =>
      match membership? name, args with
      | some op, [arg] => Node.binaryOf now op target arg.recorded
      | some _, args => throw (.membershipArgs name args)
      | none, _ => Node.method now target (.str name) recorded
  | _ => Node.func now u recorded

end EntityGraph
