import EntityGraph.Request.Materialize
import EntityGraph.Validity.Document

/-!
# Executing requests

A request is a query by its name, with arguments and selections, or a document whose root fields are
such queries under the names they are to be given out under. A request is composed into one
expression, evaluated against a new context, and its records are filled in. All root fields of a
document share one context.

Requests use up contexts, and what their functions make and assign stays.
-/

namespace EntityGraph

/-- What requests leave behind: the number of contexts they used, and what they made and assigned.
-/
structure Usage where
  contexts : Nat
  trail : Trail

/-- Requests that may fail; what they used before a failure stays used. -/
abbrev Requesting := ExceptT Fault (StateM Usage)

namespace Requesting

variable {α : Type}

/-- The result of a computation. -/
def making (x : Making α) : Requesting α := do
  let (result, trail) := x.runFrom (← get).trail
  modify fun u => { u with trail }
  result

/-- Uses a new context. -/
def useContext : Requesting Unit := modify fun u => { u with contexts := u.contexts + 1 }

/-- Fails unless the schema is complete. -/
def ensureCompleted (w : World) : Requesting Unit := do
  if !w.schema.completed then throw .notCompleted

end Requesting

namespace World

/-- The value of a composed request. -/
def evaluate (w : World) (e : Expr Value) (context : Value) : Making Value :=
  e.applyLambda w.host [context]

/-- The query with a name. -/
def query (w : World) (name : String) : Outcome QueryDecl :=
  match w.schema.findQuery? name with
  | some q => .ok q
  | none => .error (.queryUnknown name (w.schema.queries.map (·.name)))

/-- Composes a request, evaluates it and fills in its records. -/
def runQuery (w : World) (context : Value) (name : String) (args : List (String × Value))
    (selections : List Selected) (paging : Paging) : Making Value := do
  let q ← w.query name
  let e ← q.compose w args selections paging
  let v ← w.evaluate e context
  Materialize.value w (w.schema.typeOf q.host) selections q.isList v

/-- Executes a query. -/
def executeQuery (w : World) (context : Value) (name : String) (args : List (String × Value))
    (selections : List Selected) (paging : Paging) : Requesting Value := do
  Requesting.ensureCompleted w
  Requesting.useContext
  Requesting.making (w.runQuery context name args selections paging)

end World

namespace Document

mutual

/-- The selected field that a requested field is. -/
def Requested.selected : Requested → Selected
  | .field _ name args children => .field name args (selectedAll children)

/-- The selected fields that several requested fields are. -/
def selectedAll : List Requested → List Selected
  | [] => []
  | r :: rs => r.selected :: selectedAll rs

end

/-- Fails for a field under another name. -/
def refuseLabel (f : FieldNode) : Outcome Unit :=
  if f.output == f.name then .ok () else .error (.aliasedField f.name f.output)

/-- Reads a document and fails unless it is valid for the schema. -/
def readValid (w : World) (source : String) : Outcome Document := do
  let d ← read source
  match w.schema.system with
  | none => .error (.wrongType "Expected a schema")
  | some sys =>
    if !sys.isSound then .error (.wrongType "The schema breaks the rules of the language")
    else if d.isValid sys then .ok d else .error .invalidDocument

/-- The value of a root field. -/
def rootValue (w : World) (context : Value) (d : Document) (vars : Variables) (f : FieldNode) :
    Making Value := do
  if f.name == Schema.typeNameName then return .str Interface.rootName
  else
    let children ← expand d vars refuseLabel (← collect (fragments d) vars f.selections)
    w.runQuery context f.name (argumentValues vars f.args) (selectedAll children) .all

end Document

/-- Executes the query of a document. The results are given out under the names of the root fields;
of two with one name the last result counts, at the place of the first. -/
def World.executeDocument (w : World) (context : Value) (source : String)
    (vars : Document.Variables) : Requesting (List (String × Value)) := do
  Requesting.ensureCompleted w
  let d ← Document.readValid w source
  let o ← Document.query d
  Requesting.useContext
  let roots ← Document.collect (Document.fragments d) vars o.selections
  roots.foldlM (fun found f => do
    let v ← Requesting.making (Document.rootValue w context d vars f)
    return Document.putNamed found f.output v) []

end EntityGraph
