import EntityGraph.Making
import EntityGraph.Value.Node

/-!
# Building expressions from drafts

A draft is built from its leaves upwards: the parts of a node first, in order, and then the node,
which checks its parts. New parameters take their numbers from a supply, so that each is a parameter
of its own.
-/

namespace EntityGraph

namespace Node

/-- A new parameter with a name. -/
def param (name : Value) : Making (Expr Value) := do
  match name with
  | .str n => return .param (← newParam n)
  | v => refuse (.paramName v)

/-- The node of a sort that is made from values for its parts in order. -/
def make (w : World) (kind : NodeKind) (parts : List Value) : Making (Expr Value) := do
  match kind, parts with
  | .param, [name] => param name
  | kind, parts => ofParts w kind parts

end Node

mutual

/-- The value of a draft: an expression, or the plain value in its place. -/
def Draft.value (w : World) : Draft Value → Making Value
  | .param p => return .ofTree (.param p)
  | .newParam n => do return .ofTree (← Node.param n)
  | .lit v => return .ofTree (.lit v)
  | .null => return .ofTree .null
  | .litTree d => do return .ofTree (← Node.literal w (← d.value w))
  | .plain v => return v
  | .member t n => do return .ofTree (← Node.member w (← t.value w) n)
  | .item t k => do return .ofTree (← Node.item w (← t.value w) (← k.value w))
  | .method t n as => do return .ofTree (← Node.method w (← t.value w) n (← as.value w))
  | .func f as => do return .ofTree (← Node.func w (← f.value w) (← as.value w))
  | .unary op e => do return .ofTree (← Node.unary w op (← e.value w))
  | .binary op l r => do return .ofTree (← Node.binary w op (← l.value w) (← r.value w))
  | .cond p y n => do return .ofTree (← Node.cond w (← p.value w) (← y.value w) (← n.value w))
  | .lambda ps b => do return .ofTree (← Node.lambda w (← ps.value w) (← b.value w))
  | .invoke f as => do return .ofTree (← Node.invoke w (← f.value w) (← as.value w))
  | .seq op s as => do return .ofTree (← Node.seq w op (← s.value w) (← as.value w))
  | .record t fs => do return .ofTree (← Node.record w t (← fs.value w))

/-- The value of a group of drafts: a tuple, or the plain value in its place. -/
def Drafts.value (w : World) : Drafts Value → Making Value
  | .plain v => return v
  | .nil => return .tuple []
  | .cons d ds => do
    let u ← d.value w
    match ← ds.value w with
    | .tuple us => return .tuple (u :: us)
    | v => return v

/-- The value of the members of a record: a tuple of pairs, or the plain value in its place. -/
def DraftFields.value (w : World) : DraftFields Value → Making Value
  | .plain v => return v
  | .nil => return .tuple []
  | .cons n d fs => do
    let u ← d.value w
    match ← fs.value w with
    | .tuple us => return .tuple (.tuple [n, u] :: us)
    | v => return v

end

/-- Builds a draft into an expression. -/
def Draft.build (w : World) (d : Draft Value) : Making (Expr Value) := do
  match ← d.value w with
  | .expr e _ => return e
  | _ => throw (.wrongType "a plain value is no expression")

end EntityGraph
