import EntityGraph.Value.Operate

/-!
# Methods of recording proxies

What can be done with a recording proxy by an operator can also be done by a method of it. Besides
there are methods that read a member or an item, show the proxy, or refuse what cannot be recorded.
Reading any other attribute records the reading, unless its name is one of the host's protocols.
-/

namespace EntityGraph

namespace Value

/-- The methods that record an operator with the proxy on its left. -/
def operatorMethods : List (String × ScriptOp) :=
  [("__eq__", .eq), ("__ne__", .ne), ("__lt__", .lt), ("__le__", .le), ("__gt__", .gt),
    ("__ge__", .ge), ("__and__", .and), ("__or__", .or), ("__add__", .add), ("__sub__", .sub),
    ("__mul__", .mul), ("__truediv__", .div), ("__mod__", .mod)]

/-- The methods that record an operator with the proxy on its right. -/
def reflectedMethods : List (String × ScriptOp) :=
  [("__rand__", .and), ("__ror__", .or), ("__radd__", .add), ("__rsub__", .sub),
    ("__rmul__", .mul), ("__rtruediv__", .div), ("__rmod__", .mod)]

/-- The method that calls a proxy. It takes any number of arguments. -/
def callMethodName : String := "__call__"

/-- The methods of proxies with the names of their parameters. -/
def proxyMethods : List (String × List String) :=
  (operatorMethods ++ reflectedMethods).map (fun (n, _) => (n, ["other"]))
    ++ ["_binary", "_reflected_binary"].map (·, ["operator", "other"])
    ++ ["__invert__", "__neg__", "__repr__", "__str__", "__bool__", "__iter__", "__dir__",
        "__reduce__", "__sizeof__", "__getstate__"].map (·, [])
    ++ ["__getattr__", "__getattribute__", "__delattr__"].map (·, ["name"])
    ++ [("__getitem__", ["key"]), ("__setattr__", ["name", "value"]),
        ("__init__", ["expression"]), ("__format__", ["format_spec"]),
        ("__reduce_ex__", ["protocol"]), (callMethodName, []), ("__new__", [])]

/-- The methods of proxies that are silent about their arguments. -/
def silentProxyMethods : List String := ["__init_subclass__", "__subclasshook__"]

/-- Whether a name is one of the host's protocols: it starts and ends with two underscores. -/
def isProtocol (name : String) : Bool := name.startsWith "__" && name.endsWith "__"

/-- What every proxy has under a name. -/
def proxyOwn? (u : Value) (mark : Nat) (name : String) : Option Value :=
  match name with
  | "_expression" => some u
  | "__class__" => some (type (.builtin .proxy))
  | "__hash__" => some none
  | "__module__" => Builtin.proxy.home.map str
  | "__slots__" => some (tuple [str "_expression"])
  | "__doc__" =>
    some (str "Stand-in for a value inside a captured lambda, recording everything done with it.")
  | name =>
    if proxyMethods.any (·.1 == name) || silentProxyMethods.contains name then
      some (method (proxy u mark) name)
    else Option.none

/-- The record of reading a member. -/
def recordMember (w : World) (u : Value) (name : String) : Outcome Value :=
  if isProtocol name then .error (.proxyProtocol name)
  else do .ok (ofRecorded (← Node.member w u (str name)))

/-- Reading an attribute of a recording proxy. -/
def proxyAttribute (w : World) (u : Value) (mark : Nat) (name : String) : Outcome Value :=
  (proxyOwn? u mark name).elim (recordMember w u name) .ok

/-- The record of an operator that is given by its symbol. -/
def recordSymbol (w : World) (op left right : Value) : Outcome Value := do
  .ok (ofRecorded (← Node.binary w op left right))

/-- Calls a method of a proxy with as many arguments as it has parameters. -/
def applyProxyMethod (w : World) (u : Value) (mark : Nat) (name : String) (args : List Value) :
    Outcome Value :=
  let self := proxy u mark
  match name, args with
  | "_binary", [op, v] => recordSymbol w op u v.recorded
  | "_reflected_binary", [op, v] => recordSymbol w op v.recorded u
  | "__invert__", [] => invert w self
  | "__neg__", [] => negate w self
  | "__repr__", [] | "__str__", [] | "__format__", [str ""] => do .ok (str (← self.tellShown w))
  | "__bool__", [] => .error .proxyTruth
  | "__iter__", [] => .error .proxyIteration
  | "__getattr__", [str n] => recordMember w u n
  | "__getattribute__", [str n] =>
    (proxyOwn? u mark n).elim (.error (.host .missingAttribute n)) .ok
  | "__getattr__", [_] => .error (.host .missingAttribute "startswith")
  | "__setattr__", [n, _] => .error (.proxyAssignment (n.plain w))
  | "__getitem__", [k] => readItem w self k
  | name, [v] =>
    match operatorMethods.lookup name, reflectedMethods.lookup name with
    | some op, _ => operate w op self v
    | _, some op => recordBinary w op.recorded v.recorded u
    | _, _ => .error (.wrongType (name ++ "() cannot be called so"))
  | name, _ => .error (.wrongType (name ++ "() cannot be called so"))

/-- Calls a method of a proxy. -/
def callProxyMethod (w : World) (u : Value) (mark : Nat) (name : String) (args : List Value) :
    Outcome Value :=
  match proxyMethods.lookup name with
  | some params =>
    if args.length == params.length then applyProxyMethod w u mark name args
    else
      .error (Fault.argumentCount ("ExpressionProxy." ++ name) ("self" :: params) 0
        (args.length + 1))
  | Option.none => .error (.wrongType (name ++ "() cannot be called so"))

end Value

end EntityGraph
