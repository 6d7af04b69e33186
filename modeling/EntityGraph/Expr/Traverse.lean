import EntityGraph.Expr.Checked

/-!
# Walking over expressions

A visitor sees every node after the nodes beneath it and may replace it. A node whose parts were
replaced is built again before the visitor sees it, and passes the checks of its sort once more.
A walk that replaces nothing gives nothing back: the expression stays the very one it was.

Declared parameters are not visited; a use of a parameter is. The parameters an expression leaves
free are those it uses and none of its lambdas declares, wherever that lambda stands.
-/

namespace EntityGraph.Expr

variable {V : Type}

/-- Builds an application again. -/
def rebuildInvoke (before function : Expr V) (args : List (Expr V)) :
    Except (TreeFault V) (Expr V) :=
  match function with
  | lambda ps body => makeInvoke ps body args
  | _ => .error (.replacedLambda before function)

/-- Shows a node to the visitor: the rebuilt one if a part was replaced, else the node itself. -/
def offer (f : Expr V → Option (Expr V)) (self : Expr V) : Option (Expr V) → Option (Expr V)
  | none => f self
  | some rebuilt => some ((f rebuilt).getD rebuilt)

mutual

/-- Walks over an expression, parts first. The visitor gives nothing to leave a node as it is, and
the walk gives nothing if no node was replaced. -/
def visit (f : Expr V → Option (Expr V)) : Expr V → Except (TreeFault V) (Option (Expr V))
  | param p => .ok (f (param p))
  | lit v => .ok (f (lit v))
  | null => .ok (f null)
  | member t n => do
    let t' ← t.visit f
    .ok (offer f (member t n) (t'.map (member · n)))
  | item t k => do
    let t' ← t.visit f
    let k' ← k.visit f
    .ok (offer f (item t k)
      (if t'.isSome || k'.isSome then some (item (t'.getD t) (k'.getD k)) else none))
  | method t n as => do
    let t' ← t.visit f
    let as' ← visitList f as
    .ok (offer f (method t n as)
      (if t'.isSome || as'.isSome then some (method (t'.getD t) n (as'.getD as)) else none))
  | func g as => do
    let g' ← g.visit f
    let as' ← visitList f as
    .ok (offer f (func g as)
      (if g'.isSome || as'.isSome then some (func (g'.getD g) (as'.getD as)) else none))
  | unary op e => do
    let e' ← e.visit f
    .ok (offer f (unary op e) (e'.map (unary op)))
  | binary op l r => do
    let l' ← l.visit f
    let r' ← r.visit f
    .ok (offer f (binary op l r)
      (if l'.isSome || r'.isSome then some (binary op (l'.getD l) (r'.getD r)) else none))
  | cond p y n => do
    let p' ← p.visit f
    let y' ← y.visit f
    let n' ← n.visit f
    .ok (offer f (cond p y n)
      (if p'.isSome || y'.isSome || n'.isSome then
        some (cond (p'.getD p) (y'.getD y) (n'.getD n)) else none))
  | lambda ps b => do
    let b' ← b.visit f
    .ok (offer f (lambda ps b) (b'.map (lambda ps)))
  | invoke g as => do
    let g' ← g.visit f
    let as' ← visitList f as
    if g'.isSome || as'.isSome then
      let rebuilt ← rebuildInvoke (invoke g as) (g'.getD g) (as'.getD as)
      .ok (offer f (invoke g as) (some rebuilt))
    else .ok (offer f (invoke g as) none)
  | seq op s as => do
    let s' ← s.visit f
    let as' ← visitList f as
    if s'.isSome || as'.isSome then
      let rebuilt ← makeSeq op (s'.getD s) (as'.getD as)
      .ok (offer f (seq op s as) (some rebuilt))
    else .ok (offer f (seq op s as) none)
  | record t fs => do
    let fs' ← visitFields f fs
    .ok (offer f (record t fs) (fs'.map (record t)))

/-- Walks over several expressions. -/
def visitList (f : Expr V → Option (Expr V)) :
    List (Expr V) → Except (TreeFault V) (Option (List (Expr V)))
  | [] => .ok none
  | e :: es => do
    let e' ← e.visit f
    let es' ← visitList f es
    .ok (if e'.isSome || es'.isSome then some (e'.getD e :: es'.getD es) else none)

/-- Walks over the members of a record. -/
def visitFields (f : Expr V → Option (Expr V)) :
    List (V × Expr V) → Except (TreeFault V) (Option (List (V × Expr V)))
  | [] => .ok none
  | (n, e) :: fs => do
    let e' ← e.visit f
    let fs' ← visitFields f fs
    .ok (if e'.isSome || fs'.isSome then some ((n, e'.getD e) :: fs'.getD fs) else none)

end

/-- The visitor that replaces parameters. Replacing a parameter by itself is no replacement. -/
def replaceParam (r : Param → Option (Expr V)) : Expr V → Option (Expr V)
  | param p =>
    match r p with
    | some (param q) => if q == p then none else some (param q)
    | found => found
  | _ => none

/-- The visitor that replaces every node of a sort by the same expression. Parameters and the shared
literal of the missing value are what they are by identity: replacing one by itself is no
replacement. -/
def replaceKind (kind : NodeKind) (new : Expr V) (e : Expr V) : Option (Expr V) :=
  if e.kind == kind then
    match e, new with
    | param p, param q => if p == q then none else some (param q)
    | null, null => none
    | _, new => some new
  else none

mutual

/-- The expression with every use of a parameter replaced, all at once and not inside the
replacements. Declarations stay as they are. -/
def substitute (r : Param → Option (Expr V)) : Expr V → Expr V
  | param p => (r p).getD (param p)
  | lit v => lit v
  | null => null
  | member t n => member (t.substitute r) n
  | item t k => item (t.substitute r) (k.substitute r)
  | method t n as => method (t.substitute r) n (substituteList r as)
  | func g as => func (g.substitute r) (substituteList r as)
  | unary op e => unary op (e.substitute r)
  | binary op a b => binary op (a.substitute r) (b.substitute r)
  | cond p y n => cond (p.substitute r) (y.substitute r) (n.substitute r)
  | lambda ps b => lambda ps (b.substitute r)
  | invoke g as => invoke (g.substitute r) (substituteList r as)
  | seq op s as => seq op (s.substitute r) (substituteList r as)
  | record t fs => record t (substituteFields r fs)

/-- Replaces parameters in several expressions. -/
def substituteList (r : Param → Option (Expr V)) : List (Expr V) → List (Expr V)
  | [] => []
  | e :: es => e.substitute r :: substituteList r es

/-- Replaces parameters in the members of a record. -/
def substituteFields (r : Param → Option (Expr V)) : List (V × Expr V) → List (V × Expr V)
  | [] => []
  | (n, e) :: fs => (n, e.substitute r) :: substituteFields r fs

end

/-- Replaces parameters and builds the nodes above them again. -/
def replaceParams (r : Param → Option (Expr V)) (e : Expr V) : Except (TreeFault V) (Expr V) := do
  .ok ((← e.visit (replaceParam r)).getD e)

mutual

/-- Every node of an expression, parts first. -/
def nodes : Expr V → List (Expr V)
  | e@(param _) => [e]
  | e@(lit _) => [e]
  | e@null => [e]
  | e@(member t _) => t.nodes ++ [e]
  | e@(item t k) => t.nodes ++ k.nodes ++ [e]
  | e@(method t _ as) => t.nodes ++ nodesList as ++ [e]
  | e@(func g as) => g.nodes ++ nodesList as ++ [e]
  | e@(unary _ a) => a.nodes ++ [e]
  | e@(binary _ a b) => a.nodes ++ b.nodes ++ [e]
  | e@(cond p y n) => p.nodes ++ y.nodes ++ n.nodes ++ [e]
  | e@(lambda _ b) => b.nodes ++ [e]
  | e@(invoke g as) => g.nodes ++ nodesList as ++ [e]
  | e@(seq _ s as) => s.nodes ++ nodesList as ++ [e]
  | e@(record _ fs) => nodesFields fs ++ [e]

/-- Every node of several expressions. -/
def nodesList : List (Expr V) → List (Expr V)
  | [] => []
  | e :: es => e.nodes ++ nodesList es

/-- Every node of the members of a record. -/
def nodesFields : List (V × Expr V) → List (Expr V)
  | [] => []
  | (_, e) :: fs => e.nodes ++ nodesFields fs

end

/-- The parameter that a node uses. -/
def used? : Expr V → Option Param
  | param p => some p
  | _ => none

/-- The parameters that a node declares. -/
def declares : Expr V → List Param
  | lambda ps _ => ps
  | _ => []

/-- A number that no parameter used or declared in an expression exceeds. -/
def ceiling (e : Expr V) : Nat :=
  (e.nodes.flatMap fun n => n.used?.toList ++ n.declares).foldl (fun found p => max found p.id) 0

/-- The parameters that an expression uses and none of its lambdas declares, each once and in the
order of their first use. -/
def freeParams (e : Expr V) : List Param :=
  let declared := e.nodes.flatMap declares
  (e.nodes.filterMap used?).foldl
    (fun found p => if declared.contains p || found.contains p then found else found ++ [p]) []

end EntityGraph.Expr
