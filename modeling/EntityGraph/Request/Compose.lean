import EntityGraph.Expr.Traverse
import EntityGraph.Schema.Introspection
import EntityGraph.Schema.Arguments

/-!
# Composing a request into one expression

A request names a query and a tree of fields. Composing it gives one lambda over the context, which
projects what the query produces into records of the selected fields. The lambda of a field
contributes its body, with the entity replaced by a parameter for the row that is projected; the
context stays as it is, since all lambdas of a schema share it.

First the lambdas of all selected fields are collected in a plan, which says what is projected
into what. The plan is then assembled, with parameters for the rows that occur in none of the
lambdas.

Fields that are computed after the query are left out here, and so is a field that was selected
before. A missing entity is projected as a missing value.
-/

namespace EntityGraph

/-- A selected field: its name, its raw arguments, and the fields selected beneath it. -/
inductive Selected where
  | field (name : String) (args : List (String × Value)) (children : List Selected)
  deriving Inhabited

namespace Selected

/-- The name of a selected field. -/
def name : Selected → String
  | field n _ _ => n

end Selected

/-- Which elements of a sequence are wanted; a missing value sets no bound. -/
structure Paging where
  offset : Value
  limit : Value

namespace Paging

/-- All elements. -/
def all : Paging := ⟨.none, .none⟩

/-- Whether a bound is a number of elements, or missing. -/
def isBound : Value → Bool
  | .none => true
  | .int n => 0 ≤ n
  | _ => false

/-- Fails if a query cannot be paginated so. -/
def check (p : Paging) (q : QueryDecl) : Outcome Unit :=
  if !q.isList && !(p.offset.isNone && p.limit.isNone) then
    .error (.singlePagination q.name p.offset p.limit)
  else if !isBound p.offset then .error (.paginationValue q.name "offset" p.offset)
  else if !isBound p.limit then .error (.paginationValue q.name "limit" p.limit)
  else .ok ()

/-- The wanted elements of a sequence. -/
def apply (p : Paging) (sequence : Expr Value) : Expr Value :=
  let bounded := fun (op : SeqOp) (bound : Value) (e : Expr Value) =>
    if bound.isNone then e else .seq op e [.lit bound]
  bounded .take p.limit (bounded .skip p.offset sequence)

end Paging

mutual

/-- What a value is projected into. -/
inductive Plan : Type where
  /-- Into itself. -/
  | plain
  /-- Into a record of a type with these members, or each of its elements into one. -/
  | records (isList : Bool) (typeName : String) (members : List Member)

/-- A member of a record: its name, the body of its lambda with the parameter for the entity, and
what its value is projected into. -/
inductive Member : Type where
  | mk (name : String) (entity : Param) (body : Expr Value) (plan : Plan)

end

/-- A value that may be missing, as a record with these members or as a missing value. -/
def guarded (row : Param) (record value : Expr Value) : Expr Value :=
  .invoke (.lambda [row] (.cond (.binary .eq (.param row) .null) .null record)) [value]

mutual

/-- A number that no parameter in a plan exceeds. -/
def Plan.ceiling : Plan → Nat
  | .plain => 0
  | .records _ _ ms => ceilingOfMembers ms

/-- A number that no parameter in a member exceeds. -/
def Member.ceiling : Member → Nat
  | .mk _ entity body plan => max (Expr.lambda [entity] body).ceiling plan.ceiling

/-- A number that no parameter in members exceeds. -/
def ceilingOfMembers : List Member → Nat
  | [] => 0
  | m :: ms => max m.ceiling (ceilingOfMembers ms)

end

mutual

/-- The projection of a value. -/
def Plan.assemble (value : Expr Value) : Plan → Making (Expr Value)
  | .plain => return value
  | .records isList typeName ms => do
    let row ← newParam (Schema.entityName typeName)
    let record : Expr Value := .record (.type (.record typeName)) (← assembleMembers row ms)
    return if isList then .seq .select value [.lambda [row] record] else guarded row record value

/-- The member of a record for a row. -/
def Member.assemble (row : Param) : Member → Making (Value × Expr Value)
  | .mk name entity body plan => do
    let value := body.substitute fun p => if p == entity then some (.param row) else none
    return (.str name, ← plan.assemble value)

/-- The members of a record for a row. -/
def assembleMembers (row : Param) : List Member → Making (List (Value × Expr Value))
  | [] => return []
  | m :: ms => do return (← m.assemble row) :: (← assembleMembers row ms)

end

namespace Compose

/-- The selected field of a type, which has fields selected beneath it exactly if its values have
fields. -/
def selectedField (w : World) (t : TypeDecl) (name : String) (hasChildren : Bool) :
    Outcome FieldDecl :=
  match t.findField? name with
  | none => .error (.fieldUnknown t.name name (t.fields.map (·.name)))
  | some f =>
    let target := w.schema.typeOf f.host
    if target.isScalar && hasChildren then .error (.scalarSelection f.name t.name target.name)
    else if !target.isScalar && !hasChildren then
      .error (.objectSelection f.name t.name target.name)
    else .ok f

/-- Fails if the nodes above the uses of a parameter cannot be built again. -/
def ensureReplaceable (e : Expr Value) (p : Param) : Outcome Unit := do
  let other : Param := ⟨p.id + 1, p.name⟩
  let _ ← ofTree (e.replaceParams fun q => if q == p then some (.param other) else none)

/-- The parameter for the entity and the body of a field's lambda, for raw arguments. -/
def lend (w : World) (t : TypeDecl) (f : FieldDecl) (args : List (String × Value)) :
    Making (Param × Expr Value) := do
  let bound ← f.shape.bind w w.schema.scalars args
  match ← f.expression w t.name bound with
  | .lambda ps body =>
    match ps with
    | [context, entity] =>
      if context == w.schema.context then
        ensureReplaceable body entity
        return (entity, body)
      else throw (.fieldExpression f.name t.name (.lambda ps body))
    | ps => throw (.fieldExpression f.name t.name (.lambda ps body))
  | e => throw (.fieldExpression f.name t.name e)

/-- The plan of a value of a type, or of each of its elements, with these members. -/
def planWith (t : TypeDecl) (isList isEmpty : Bool) (members : Making (List Member)) :
    Making Plan := do
  if t.isScalar then return .plain
  if isEmpty then throw (.emptySelection t.name)
  if t.projection.isNone then throw (.noProjection t.name)
  return .records isList t.name (← members)

mutual

/-- The member of a record that a selected field is; a field that is computed later or was selected
before is none. -/
def member (w : World) (t : TypeDecl) (seen : List String) : Selected → Making (Option Member)
  | .field name args children => do
    let f ← selectedField w t name (!children.isEmpty)
    if f.isPost || seen.contains name then return none
    else
      let (entity, body) ← lend w t f args
      let target := w.schema.typeOf f.host
      let plan ← planWith target f.isList children.isEmpty (members w target [] children)
      return some (.mk name entity body plan)

/-- The members of a record, beside those that were seen. -/
def members (w : World) (t : TypeDecl) (seen : List String) :
    List Selected → Making (List Member)
  | [] => return []
  | s :: rest => do
    match ← member w t seen s with
    | some m => return m :: (← members w t (seen ++ [s.name]) rest)
    | none => members w t seen rest

end

/-- The plan of a value of a type, or of each of its elements. -/
def plan (w : World) (t : TypeDecl) (isList : Bool) (selections : List Selected) :
    Making Plan :=
  planWith t isList selections.isEmpty (members w t [] selections)

/-- The sequence or the value of a query, for raw arguments. -/
def queryValue (w : World) (q : QueryDecl) (args : List (String × Value)) :
    Making (Expr Value) := do
  let bound ← q.shape.bind w w.schema.scalars args
  match ← q.expression w bound with
  | .lambda ps body =>
    if ps == [w.schema.context] then return body
    else throw (.queryExpression q.name (.lambda ps body))
  | e => throw (.queryExpression q.name e)

end Compose

/-- The lambda over the context that a request is. -/
def QueryDecl.compose (w : World) (q : QueryDecl) (args : List (String × Value))
    (selections : List Selected) (paging : Paging) : Making (Expr Value) := do
  paging.check q
  let value := paging.apply (← Compose.queryValue w q args)
  let t := w.schema.typeOf q.host
  if t.isScalar && !selections.isEmpty then throw (.querySelection q.name t.name)
  let plan ← Compose.plan w t q.isList selections
  let whole := Expr.lambda [w.schema.context] value
  Making.passOver (max whole.ceiling plan.ceiling)
  return .lambda [w.schema.context] (← plan.assemble value)

end EntityGraph
