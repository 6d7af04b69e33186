import EntityGraph.Eval.Sorting
import EntityGraph.Value.Operator
import EntityGraph.Value.Attribute
import EntityGraph.Making
import EntityGraph.Expr.Checked

/-!
# Evaluating expressions

An expression is evaluated in a scope that binds its free parameters. Evaluation is eager: every
operation on a sequence makes a list. Reading a member or an item of the missing value, or calling
one of its methods, gives the missing value, and nothing else of the node is evaluated; the same
holds for most operations on a missing sequence.

What a call does is up to the host, which evaluation asks. Everything said about evaluation
therefore holds whatever the functions of an application do. They may assign to attributes, so every
operation takes place in the world as it is then.
-/

namespace EntityGraph

/-- What evaluation needs to know: what values refer to before anything is assigned, and what a call
gives. -/
structure Host where
  world : World
  call : Calling

namespace Scope

/-- Binds parameters to the values at the same places, or fails if they are not as many. -/
def bindAll (s : Scope Value) (ps : List Param) (vs : List Value) : Outcome (Scope Value) :=
  match s.bindAll? ps vs with
  | some s => .ok s
  | none => .error (.bindingCount ps vs)

/-- The value of a parameter, or a fault if it is not bound. -/
def lookup (s : Scope Value) (p : Param) : Outcome Value :=
  match s.lookup? p with
  | some v => .ok v
  | none => .error (.unbound p)

end Scope

namespace Eval

/-- The number of elements that a count speaks of: a negative one of none. -/
def countOf (w : World) (v : Value) : Outcome Nat := do
  if ← Value.truth w (← Value.operate w .gt (.int 0) v) then .ok 0
  else
    match v.asInt? with
    | some n => .ok n.toNat
    | none =>
      .error (.wrongType
        "slice indices must be integers or None or have an __index__ method")

/-- Takes or skips elements; a missing count does nothing. -/
def slice (w : World) (op : SeqOp) (vs : List Value) (count : Value) : Outcome Value := do
  if count.isNone then .ok (.list vs)
  else
    let n ← countOf w count
    .ok (.list (if op == .take then vs.take n else vs.drop n))

/-- The elements that pass a test. -/
def keep (w : World) (test : Value → Making Value) : List Value → Making (List Value)
  | [] => return []
  | v :: vs => do
    let u ← test v
    if ← Value.truth (← Making.now w) u then return v :: (← keep w test vs) else keep w test vs

/-- Elements sorted by the keys that a function gives. -/
def sorted (w : World) (key : Value → Making Value) (down : Bool) (vs : List Value) :
    Making Value := do
  let keyed ← vs.mapM fun v => do return (← key v, v)
  let w ← Making.now w
  let done ← if down then Sorting.descending w keyed else Sorting.ascending w keyed
  return .list (done.map (·.2))

/-- What an operation makes of the elements that are left after its test. -/
def conclude (op : SeqOp) (self : Expr Value) (vs : List Value) : Outcome Value :=
  match op with
  | .count => .ok (.int vs.length)
  | .any => .ok (.bool (!vs.isEmpty))
  | .firstOrDefault => .ok (vs.head?.getD .none)
  | .first =>
    match vs with
    | v :: _ => .ok v
    | [] => .error (.noElement self)
  | _ => .ok (.list vs)

/-- Applies an operation with its function, if it has one, to the elements of a sequence. -/
def applyFunction (w : World) (op : SeqOp) (self : Expr Value)
    (function : Option (Value → Making Value)) (vs : List Value) : Making Value :=
  match op, function with
  | .select, some f => do return .list (← vs.mapM f)
  | .orderBy, some f => sorted w f false vs
  | .orderByDescending, some f => sorted w f true vs
  | op, some f => do return ← conclude op self (← keep w f vs)
  | op, none => do return ← conclude op self vs

end Eval

namespace Expr

mutual

/-- The value of an expression in a scope. -/
def eval (h : Host) : Expr Value → Scope Value → Making Value
  | param p, s => do return ← s.lookup p
  | lit v, _ => return v
  | null, _ => return .none
  | member t n, s => do
    let v ← t.eval h s
    if v.isNone then return .none else Value.own (Value.getAttr (← Making.now h.world) v n)
  | item t k, s => do
    let v ← t.eval h s
    if v.isNone then return .none
    else do
      let k ← k.eval h s
      Value.own (Value.readItem (← Making.now h.world) v k)
  | method t n as, s => do
    let v ← t.eval h s
    if v.isNone then return .none
    else do
      let vs ← evalList h as s
      h.call (← Value.own (Value.getAttr (← Making.now h.world) v n)) vs
  | func f as, s => do
    let g ← f.eval h s
    let vs ← evalList h as s
    h.call g vs
  | unary op e, s => do
    let v ← e.eval h s
    Value.own (op.apply (← Making.now h.world) v)
  | binary op l r, s => do
    let v ← l.eval h s
    match op with
    | .and =>
      if ← Value.truth (← Making.now h.world) v then do
        let u ← r.eval h s
        return ← BinaryOp.apply (← Making.now h.world) .and v u
      else return .bool false
    | .or =>
      if ← Value.truth (← Making.now h.world) v then return .bool true
      else do
        let u ← r.eval h s
        return ← BinaryOp.apply (← Making.now h.world) .or v u
    | op => do
      let u ← r.eval h s
      Value.own (op.apply (← Making.now h.world) v u)
  | cond p y n, s => do
    let v ← p.eval h s
    if ← Value.truth (← Making.now h.world) v then y.eval h s else n.eval h s
  | lambda ps b, s => Making.newClosure ⟨ps, b, s⟩
  | invoke f as, s => do
    let vs ← evalList h as s
    applyTo h f vs s
  | seq op src as, s => do
    let v ← src.eval h s
    if v.isNone then
      if op.passesMissing then return .none else throw (.missingSequence op (seq op src as))
    else do
      let vs ← Value.elements (← Making.now h.world) v
      if op.takesFunction then
        match as.find? (!·.isLambdaOf 1) with
        | some bad => throw (.elementLambda bad)
        | none =>
          Eval.applyFunction h.world op (seq op src as)
            (if as.isEmpty then none else some fun x => applyFirst h as x s) vs
      else do
        let count ← evalFirst h as s
        return ← Eval.slice (← Making.now h.world) op vs count
  | record t fs, s => do
    let vs ← evalFields h fs s
    h.call t [.list vs]

/-- The values of several expressions. -/
def evalList (h : Host) : List (Expr Value) → Scope Value → Making (List Value)
  | [], _ => return []
  | e :: es, s => do
    let v ← e.eval h s
    return v :: (← evalList h es s)

/-- The pairs of names and values that a record is made of. -/
def evalFields (h : Host) : List (Value × Expr Value) → Scope Value → Making (List Value)
  | [], _ => return []
  | (n, e) :: fs, s => do
    let v ← e.eval h s
    return .tuple [n, v] :: (← evalFields h fs s)

/-- The value of the first of several expressions. -/
def evalFirst (h : Host) : List (Expr Value) → Scope Value → Making Value
  | [], _ => return .none
  | e :: _, s => e.eval h s

/-- The value of a lambda's body for its arguments. -/
def applyTo (h : Host) : Expr Value → List Value → Scope Value → Making Value
  | lambda ps b, vs, s => do b.eval h (← s.bindAll ps vs)
  | e, _, _ => throw (.elementLambda e)

/-- The value of the first of several lambdas for one argument. -/
def applyFirst (h : Host) : List (Expr Value) → Value → Scope Value → Making Value
  | [], _, _ => return .none
  | e :: _, v, s => applyTo h e [v] s

end

/-- The value of a lambda without free parameters for its arguments. -/
def applyLambda (h : Host) (f : Expr Value) (args : List Value) : Making Value :=
  f.applyTo h args .empty

end Expr

end EntityGraph
