import EntityGraph.Expr.Checked
import EntityGraph.Value.Collection

/-!
# Expressions as values

An expression that is a value offers its parts as attributes, and those that are no expressions
themselves can be assigned to. Whatever takes the expression later on finds it changed.

The nodes of expressions are made from values, some of which have to be expressions. A node refuses
a value that does not fit in its place.
-/

namespace EntityGraph

/-- The result of making a node as an outcome. -/
def ofTree {α : Type} (x : Except (TreeFault Value) α) : Outcome α := x.mapError Fault.tree

/-- Fails with a fault of an expression. -/
def refuse {α : Type} (f : TreeFault Value) : Outcome α := .error (.tree f)

namespace Expr

/-- The expression in which the node at a path is replaced by what `f` makes of it. A path counts
the parts of a node, and a group of parts as one, which it then counts in turn. -/
def modifyAt (f : Expr Value → Expr Value) : List Nat → Expr Value → Expr Value
  | [], e => f e
  | i :: path, e =>
    let go := modifyAt f path
    let inGroup := fun (es : List (Expr Value)) =>
      match path with
      | j :: path => es.modify j (modifyAt f path)
      | [] => es
    match i, e with
    | 0, member t n => member (go t) n
    | 0, item t k => item (go t) k
    | 1, item t k => item t (go k)
    | 0, method t n as => method (go t) n as
    | 1, method t n as => method t n (inGroup as)
    | 0, func g as => func (go g) as
    | 1, func g as => func g (inGroup as)
    | 0, unary op e => unary op (go e)
    | 0, binary op l r => binary op (go l) r
    | 1, binary op l r => binary op l (go r)
    | 0, cond p y n => cond (go p) y n
    | 1, cond p y n => cond p (go y) n
    | 2, cond p y n => cond p y (go n)
    | 1, lambda ps b => lambda ps (go b)
    | 0, invoke g as => invoke (go g) as
    | 1, invoke g as => invoke g (inGroup as)
    | 0, seq op s as => seq op (go s) as
    | 1, seq op s as => seq op s (inGroup as)
    | 0, record t fs =>
      match path with
      | j :: path => record t (fs.modify j fun (n, e) => (n, modifyAt f path e))
      | [] => e
    | _, e => e

/-- A node whose part with a name has become a value. A value that does not fit there cannot be
taken for one, and the node stays as it was. -/
def withPart (e : Expr Value) (name : String) (v : Value) : Expr Value :=
  match e, name, v with
  | lit _, "value", v => lit v
  | member t _, "member_name", .str n => member t n
  | method t _ as, "method_name", .str n => method t n as
  | method t n _, "arguments", .tuple [] => method t n []
  | func g _, "arguments", .tuple [] => func g []
  | unary op e, "operator", .str s => unary ((UnaryOp.ofSymbol? s).getD op) e
  | binary op l r, "operator", .str s => binary ((BinaryOp.ofSymbol? s).getD op) l r
  | seq op e as, "operator", .str s => seq ((SeqOp.ofSymbol? s).getD op) e as
  | record _ fs, "record_type", t => record t fs
  | record t _, "fields", .tuple [] => record t []
  | e, _, _ => e

/-- An expression at a place as it is now. -/
def current (w : World) (p : Position) (e : Expr Value) : Expr Value :=
  if p.root == 0 then e
  else
    w.memory.foldl (fun e (r, o) =>
      match r with
      | .expression q =>
        if q.root == p.root && p.path.isPrefixOf q.path then
          e.modifyAt (fun e => o.attributes.foldl (fun e (n, v) => e.withPart n v) e)
            (q.path.drop p.path.length)
        else e
      | _ => e) e

end Expr

namespace Value

/-- The expression that a value is. -/
def tree? (w : World) : Value → Option (Expr Value)
  | expr e p => some (e.current w p)
  | _ => Option.none

/-- What a value stands for inside an expression: what a proxy recorded, an expression itself, or
else a literal of the value. -/
def recorded : Value → Value
  | proxy v _ => v
  | expr e p => expr e p
  | v => ofTree (.lit v)

/-- The expression that a value is, which is expected at a place. -/
def treeAt (w : World) (place : Place) (v : Value) : Outcome (Expr Value) :=
  (v.tree? w).elim (refuse (.notTree place v)) .ok

/-- The expression that a value is, which is expected in a group. -/
def treeIn (w : World) (group : Group) (v : Value) : Outcome (Expr Value) :=
  (v.tree? w).elim (refuse (.groupMember group v)) .ok

/-- The expressions that a tuple holds, which are expected as a group. -/
def trees (w : World) (group : Group) (v : Value) : Outcome (List (Expr Value)) :=
  match v.tupleView? w with
  | some vs => vs.mapM (treeIn w group)
  | Option.none => refuse (.groupValue group v)

/-- The parts of an expression at a place, by the names of its sort. -/
def treeAttribute? (e : Expr Value) (p : Position) (name : String) : Option Value :=
  let part := fun (i : Nat) (e : Expr Value) => some (expr e (p.part i))
  let group := fun (i : Nat) (es : List (Expr Value)) =>
    some (tuple (es.mapIdx fun j e => expr e ((p.part i).part j)))
  match e, name with
  | .param p, "name" => some (str p.name)
  | .lit v, "value" => some v
  | .null, "value" => some none
  | .member t _, "target" | .item t _, "target" | .method t _ _, "target" => part 0 t
  | .member _ n, "member_name" => some (str n)
  | .item _ k, "key" => part 1 k
  | .method _ n _, "method_name" => some (str n)
  | .method _ _ as, "arguments" | .func _ as, "arguments" | .invoke _ as, "arguments"
  | .seq _ _ as, "arguments" => group 1 as
  | .func f _, "function" | .invoke f _, "function" => part 0 f
  | .unary op _, "operator" => some (str op.symbol)
  | .binary op _ _, "operator" => some (str op.symbol)
  | .seq op _ _, "operator" => some (str op.symbol)
  | .unary _ i, "inner_expression" => part 0 i
  | .binary _ l _, "left" => part 0 l
  | .binary _ _ r, "right" => part 1 r
  | .cond p _ _, "predicate" => part 0 p
  | .cond _ y _, "if_true" => part 1 y
  | .cond _ _ n, "if_false" => part 2 n
  | .lambda ps _, "parameters" => group 0 (ps.map Expr.param)
  | .lambda ps _, "arity" => some (int ps.length)
  | .lambda _ b, "body" => part 1 b
  | .seq _ s _, "source" => part 0 s
  | .record t _, "record_type" => some t
  | .record _ fs, "fields" =>
    some (tuple (fs.mapIdx fun j (n, e) => tuple [n, expr e ((p.part 0).part j)]))
  | .record _ fs, "member_names" => some (tuple (fs.map (·.1)))
  | _, _ => Option.none

/-- The names of attributes of expressions that follow from others. -/
def derivedParts : List String := ["arity", "member_names"]

/-- Whether an expression takes an attribute with a name. -/
def takesPart (e : Expr Value) (name : String) : Bool :=
  ["_print_args", "_print_kwargs"].contains name
    || (treeAttribute? e .loose name).isSome && !derivedParts.contains name

end Value

namespace Node

variable (w : World)

/-- A literal of a value, which must not be an expression. -/
def literal (v : Value) : Outcome (Expr Value) :=
  match v.tree? w with
  | some e => refuse (.literalTree e)
  | none => .ok (.lit v)

/-- Reading a member. -/
def member (target name : Value) : Outcome (Expr Value) := do
  let t ← target.treeAt w .target
  match name with
  | .str n => if n.isEmpty then refuse (.memberName name) else .ok (.member t n)
  | _ => refuse (.memberName name)

/-- Reading an item. -/
def item (target key : Value) : Outcome (Expr Value) := do
  .ok (.item (← target.treeIn w .itemOperands) (← key.treeIn w .itemOperands))

/-- Calling a method. -/
def method (target name args : Value) : Outcome (Expr Value) := do
  let t ← target.treeAt w .target
  match name with
  | .str n =>
    if n.isEmpty then refuse (.methodName name) else .ok (.method t n (← args.trees w .methodArgs))
  | _ => refuse (.methodName name)

/-- Calling the value of an expression. -/
def func (function args : Value) : Outcome (Expr Value) := do
  .ok (.func (← function.treeAt w .function) (← args.trees w .functionArgs))

/-- An operator must be fit for a look-up. -/
def ensureKey (v : Value) : Outcome Unit := if v.isKey w then .ok () else .error (Value.notKey w v)

/-- An operator on one operand. -/
def unary (op inner : Value) : Outcome (Expr Value) := do
  ensureKey w op
  match op.text?.bind UnaryOp.ofSymbol? with
  | some o => .ok (.unary o (← inner.treeAt w .inner))
  | none => refuse (.unaryOperator op)

/-- A known operator on two operands. -/
def binaryOf (op : BinaryOp) (left right : Value) : Outcome (Expr Value) := do
  .ok (.binary op (← left.treeIn w .binaryOperands) (← right.treeIn w .binaryOperands))

/-- An operator on two operands. -/
def binary (op left right : Value) : Outcome (Expr Value) :=
  match op with
  | .str s =>
    match BinaryOp.ofSymbol? s with
    | some o => binaryOf w o left right
    | none => refuse (.binaryOperator op)
  | _ => refuse (.operatorType op)

/-- A choice. -/
def cond (test yes no : Value) : Outcome (Expr Value) := do
  .ok (.cond (← test.treeIn w .condOperands) (← yes.treeIn w .condOperands)
    (← no.treeIn w .condOperands))

/-- A lambda over parameters, each of which it declares once. -/
def lambda (params body : Value) : Outcome (Expr Value) := do
  let some vs := params.tupleView? w | refuse (.paramsValue params)
  let ps ← vs.mapM fun v =>
    match v.tree? w with
    | some (.param p) => .ok p
    | _ => refuse (.notParam v)
  let _ ← ofTree (Expr.makeLambda ps (.null : Expr Value))
  .ok (.lambda ps (← body.treeAt w .body))

/-- An application of a lambda. -/
def invoke (function args : Value) : Outcome (Expr Value) := do
  match function.tree? w with
  | some (.lambda ps body) => ofTree (Expr.makeInvoke ps body (← args.trees w .invokeArgs))
  | _ => refuse (.notLambda function)

/-- A known operation on a sequence. -/
def seqOf (op : SeqOp) (source args : Value) : Outcome (Expr Value) := do
  let s ← source.treeAt w .source
  ofTree (Expr.makeSeq op s (← args.trees w .seqArgs))

/-- An operation on a sequence. -/
def seq (op source args : Value) : Outcome (Expr Value) := do
  ensureKey w op
  match op.text?.bind SeqOp.ofSymbol? with
  | some o => seqOf w o source args
  | none => refuse (.seqOperator op)

/-- Members of a record, one by one: pairs of a name that was not seen before and an expression. -/
def members (fields : Value) : List Value → List Value → Outcome (List (Value × Expr Value))
  | _, [] => .ok []
  | seen, v :: rest => do
    match ← v.elements w with
    | [n, u] => do
      ensureKey w n
      if ← Value.anySame w n seen then refuse (.repeatedMember n fields)
      else
        match u.tree? w with
        | some e => do .ok ((n, e) :: (← members fields (seen ++ [n]) rest))
        | none => refuse (.memberValue n u)
    | _ => .error (.host .wrongValue "a member is a pair")

/-- A construction of a record. -/
def record (type fields : Value) : Outcome (Expr Value) := do
  match type, fields.tupleView? w with
  | .type t, some vs => do .ok (.record (.type t) (← members w fields [] vs))
  | .type _, none => refuse (.recordFields fields)
  | v, _ => refuse (.recordType v)

/-- The node of a sort that is made from values for its parts in order. Parameters are not made
here. -/
def ofParts (kind : NodeKind) (parts : List Value) : Outcome (Expr Value) :=
  match kind, parts with
  | .lit, [v] => literal w v
  | .member, [t, n] => member w t n
  | .item, [t, k] => item w t k
  | .method, [t, n, as] => method w t n as
  | .func, [f, as] => func w f as
  | .unary, [op, e] => unary w op e
  | .binary, [op, l, r] => binary w op l r
  | .cond, [p, y, n] => cond w p y n
  | .lambda, [ps, b] => lambda w ps b
  | .invoke, [f, as] => invoke w f as
  | .seq, [op, s, as] => seq w op s as
  | .record, [t, fs] => record w t fs
  | kind, _ => .error (.wrongType (kind.name ++ " takes another number of arguments"))

end Node

end EntityGraph
