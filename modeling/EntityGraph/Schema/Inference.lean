import EntityGraph.Host.Class
import EntityGraph.Value.Shown

/-!
# The type of a field's values

A field that is declared without a type gets one from its expression: a literal has the type of its
value, reading a member has the type that the class hints for it, tests are truth values, and an
operation on a sequence keeps, opens or counts its source. Everything else is the unknown type.
-/

namespace EntityGraph

namespace SeqOp

/-- The type of an operation's result, where it follows from that of its source. -/
def resultType (op : SeqOp) (source : MemberType) : MemberType :=
  match op with
  | count => ⟨.builtin .int, false⟩
  | any => ⟨.builtin .bool, false⟩
  | filter | orderBy | orderByDescending | take | skip => source
  | first | firstOrDefault => if source.isList then ⟨source.host, false⟩ else .unknown
  | select => .unknown

end SeqOp

namespace Expr

/-- The type of an expression's value, given a parameter and the host type of its values. -/
def inferType (w : World) (entity : Param) (host : HostType) : Expr Value → MemberType
  | lit v => if v.isNone then .unknown else ⟨v.typeIn w, false⟩
  | param p => if p == entity then ⟨host, false⟩ else .unknown
  | member t n =>
    let target := t.inferType w entity host
    if target.isList || target.host == .builtin .object then .unknown
    else w.classes.memberType target.host n
  | unary op e =>
    match op with
    | .not => ⟨.builtin .bool, false⟩
    | .neg => e.inferType w entity host
  | binary op _ _ => if op.isBoolean then ⟨.builtin .bool, false⟩ else .unknown
  | seq op s _ => op.resultType (s.inferType w entity host)
  | _ => .unknown

end Expr

end EntityGraph
