import EntityGraph.Document.Outline
import EntityGraph.Request.Compose

/-!
# Filling in what is computed after a query

The records of an evaluated request hold the fields that the query computed. The other selected
fields are computed now, once for every record, and the entries of each record are put into the
order in which they were first selected.
-/

namespace EntityGraph

open Document (putNamed)

namespace TypeDecl

/-- Sets a member of a record that is computed after the query. -/
def setPost (t : TypeDecl) (entries : List (String × Value)) (name : String) (v : Value) :
    Outcome (List (String × Value)) :=
  if t.postMembers.contains name then .ok (putNamed entries name v)
  else .error (.notPostField name t.name (sortedNames t.postMembers))

end TypeDecl

namespace Materialize

/-- The entries with those of these names at the end, in the order of the names. -/
def reorder (names : List String) (entries : List (String × Value)) : List (String × Value) :=
  let distinct := names.foldl (fun ns n => if ns.contains n then ns else ns ++ [n]) []
  entries.filter (fun e => !distinct.contains e.1)
    ++ distinct.filterMap fun n => (entries.lookup n).map fun v => (n, v)

/-- Fills in a value of a type, or each of its elements; `fill` does so for one record. -/
def records (fill : List (String × Value) → Making (List (String × Value))) (isList : Bool)
    (v : Value) : Making Value := do
  let one : Value → Making Value
    | .record t es => return .record t (← fill es)
    | v => return v
  if isList then
    match v with
    | .list vs => return .list (← vs.mapM one)
    | v => return v
  else one v

mutual

/-- Fills in what a selected field asks for in the entries of a record. -/
def field (w : World) (t : TypeDecl) :
    Selected → List (String × Value) → Making (List (String × Value))
  | .field name _ children, entries => do
    match t.findField? name with
    | none => throw (.selectedUnknown name t.name)
    | some f =>
      if f.isPost then do t.setPost entries name (← f.computePost w)
      else
        let target := w.schema.typeOf f.host
        if target.isScalar then return entries
        else
          match entries.lookup name with
          | none => throw (.host .missingKey name)
          | some v =>
            let names := children.map (·.name)
            let fill := fun es => do return reorder names (← fields w target children es)
            return putNamed entries name (← records fill f.isList v)

/-- Fills in what selected fields ask for, one after the other. -/
def fields (w : World) (t : TypeDecl) :
    List Selected → List (String × Value) → Making (List (String × Value))
  | [], entries => return entries
  | s :: rest, entries => do fields w t rest (← field w t s entries)

end

/-- Fills in the selected fields of a value of a type, or of each of its elements. -/
def value (w : World) (t : TypeDecl) (selections : List Selected) (isList : Bool) (v : Value) :
    Making Value :=
  if t.isScalar then return v
  else
    records (fun es => do
      return reorder (selections.map (·.name)) (← fields w t selections es)) isList v

end Materialize

end EntityGraph
