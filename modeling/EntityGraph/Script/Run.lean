import EntityGraph.Eval.Evaluate
import EntityGraph.Expr.Build
import EntityGraph.Script.Capture
import EntityGraph.Value.Assignment

/-!
# Running scripts and calling values

A script runs with values for its variables. Running it goes along its structure and calls values on
its way; calling a function of an application runs its script in turn, and calling the value of a
lambda evaluates its body. Calls are nested at most as deep as the host allows, and this bound is
what makes them end.
-/

namespace EntityGraph

/-- The variables inside a function: its arguments by place, then all further ones as a tuple if it
takes them, then the variables around it. -/
def argumentEnv (params : List String) (star : Option String) (args : List Value) (env : Env) :
    Outcome Env :=
  let rest := args.drop params.length
  if args.length < params.length || (star.isNone && !rest.isEmpty) then
    .error (.wrongType ("takes " ++ toString params.length ++ " positional arguments but "
      ++ toString args.length ++ " were given"))
  else
    let further := match star with
      | some name => [(name, Value.tuple rest)]
      | none => []
    .ok (further ++ (params.zip args).reverse ++ env)

namespace Script

mutual

/-- What a script gives in an environment. -/
def run (w : World) (calling : Calling) : Script Value → Env → Making Value
  | var n, env =>
    match env.lookup n with
    | some v => return v
    | none => throw (.host .unboundName ("name '" ++ n ++ "' is not defined"))
  | lit v, _ => return v
  | const v, _ => Value.makeProxy (.ofTree (.lit v))
  | attr t n, env => do
    let v ← t.run w calling env
    Value.own (Value.getAttr (← Making.now w) v n)
  | item t k, env => do
    let t ← t.run w calling env
    let k ← k.run w calling env
    Value.own (Value.readItem (← Making.now w) t k)
  | call f as, env => do
    let f ← f.run w calling env
    let as ← runList w calling as env
    calling f as
  | bin op l r, env => do
    let u ← l.run w calling env
    let v ← r.run w calling env
    Value.own (Value.operate (← Making.now w) op u v)
  | inv e, env => do
    let v ← e.run w calling env
    Value.own (Value.invert (← Making.now w) v)
  | neg e, env => do
    let v ← e.run w calling env
    Value.own (Value.negate (← Making.now w) v)
  | fn ps star body, env => return .function (← Making.newNumber) ps star body env
  | tree d, _ => do (← d.value (← Making.now w)).owned
  | list es, env => do return .list (← runList w calling es env)
  | and l r, env => do
    let v ← l.run w calling env
    if ← Value.truth (← Making.now w) v then r.run w calling env else return v
  | not e, env => do
    let v ← e.run w calling env
    return .bool (!(← Value.truth (← Making.now w) v))
  | iter e, env => do
    let v ← e.run w calling env
    return .list (← Value.elements (← Making.now w) v)
  | len e, env => do
    let v ← e.run w calling env
    return .int (← Value.length (← Making.now w) v)
  | isIn e c, env => do
    let v ← e.run w calling env
    let c ← c.run w calling env
    return .bool (← Value.contains (← Making.now w) c v)
  | setAttr t n v, env => do
    let target ← t.run w calling env
    Value.assign w target n v
    return .none
  | expression e, env => do (← e.run w calling env).recorded.owned
  | shown e, env => do
    let v ← e.run w calling env
    return .str (← v.tellShown (← Making.now w))

/-- What several scripts give, one after the other. -/
def runList (w : World) (calling : Calling) : List (Script Value) → Env → Making (List Value)
  | [], _ => return []
  | e :: es, env => do
    let v ← e.run w calling env
    return v :: (← runList w calling es env)

end

end Script

namespace Value

/-- An instance of a class. Proxies stand for their argument, and expressions are made from their
parts. -/
def instantiate (w : World) (t : HostType) (args : List Value) : Making Value :=
  match t, args with
  | .builtin .proxy, [v] => makeProxy v
  | .builtin .proxy, args =>
    throw (.argumentCount "ExpressionProxy.__init__" ["self", "expression"] 0 (args.length + 1))
  | .expression name, args =>
    match NodeKind.ofName? name with
    | some kind => do (ofTree (← Node.make w kind args)).owned
    | Option.none => throw (.notModelled name)
  | t, args => construct w t args

/-- Calls a value, with a bound on how deep calls are nested. -/
def callWithin (w : World) : Nat → Calling
  | 0, _, _ => throw (.host .tooDeep "maximum recursion depth exceeded")
  | depth + 1, f, args => do
    let call := callWithin w depth
    let now ← Making.now w
    match f with
    | function _ ps star body env => body.run w call (← argumentEnv ps star args env)
    | supplied g => call g args
    | closure n =>
      match (← get).closures.lookup n with
      | some c => c.body.eval { world := w, call } (← c.scope.bindAll c.params args)
      | Option.none => throw (.wrongType "the value of a lambda is lost")
    | proxy u _ => makeProxy (ofTree (← recordCall w call u args))
    | method (proxy u m) name =>
      if name == callMethodName then makeProxy (ofTree (← recordCall w call u args))
      else own (callProxyMethod now u m name args)
    | method self name => own (callMethod now self name args)
    | type t | generic t _ => instantiate now t args
    | primitive p => p.apply now args
    | v => throw (.wrongType ("'" ++ v.fullTypeName now ++ "' object is not callable"))

/-- How deep calls may be nested. -/
def callDepth : Nat := 900

/-- Calls a value. -/
def call (w : World) : Calling := callWithin w callDepth

end Value

namespace World

/-- The host in which expressions are evaluated. -/
def host (w : World) : Host := { world := w, call := Value.call w }

/-- The lambda that a function is, over these parameters. -/
def capture (w : World) (function : Value) (ps : List Param) : Making (Expr Value) :=
  captureLambda w (Value.call w) function ps

end World

end EntityGraph
