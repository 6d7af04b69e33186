import EntityGraph.Interface.System

/-!
# Request documents

A document is a list of definitions: operations, fragments, and definitions of types, which only a
schema may hold and of which nothing is kept. Operations and fragments select fields, whose
arguments are written as literals. A literal keeps the way it was written, since two requests for
one field have to agree in it.
-/

namespace EntityGraph.Document

open Interface (TypeExpr)

/-- A value as a document writes it. -/
inductive Literal where
  | var (name : String)
  /-- A whole number as it is written. -/
  | int (written : String)
  /-- A number with a fraction or an exponent as it is written. -/
  | float (written : String)
  /-- A text, and whether it is written as a block. -/
  | str (s : String) (isBlock : Bool)
  | bool (b : Bool)
  | null
  | enumeration (name : String)
  | list (elements : List Literal)
  | object (fields : List (String × Literal))
  deriving Repr, Inhabited

/-- An argument with its name. -/
abbrev Argument := String × Literal

/-- A directive with its arguments. -/
structure Directive where
  name : String
  args : List Argument
  deriving Repr, Inhabited

/-- What a selection set holds. -/
inductive Selection where
  /-- A field, possibly under another name, with what is selected beneath it. -/
  | field (label : Option String) (name : String) (args : List Argument)
      (directives : List Directive) (selections : List Selection)
  /-- The selections of a fragment. -/
  | spread (name : String) (directives : List Directive)
  /-- Selections that stand together, possibly for one type only. -/
  | inline (onType : Option String) (directives : List Directive) (selections : List Selection)
  deriving Repr, Inhabited

/-- What an operation does. -/
inductive OperationKind where
  | query | mutation | subscription
  deriving DecidableEq, Repr, Inhabited

/-- A variable of an operation. -/
structure VariableDef where
  name : String
  type : TypeExpr
  default : Option Literal
  directives : List Directive
  deriving Repr, Inhabited

/-- An operation. -/
structure Operation where
  kind : OperationKind
  name : Option String
  variableDefs : List VariableDef
  directives : List Directive
  selections : List Selection
  deriving Repr, Inhabited

/-- A fragment. -/
structure Fragment where
  name : String
  onType : String
  directives : List Directive
  selections : List Selection
  deriving Repr, Inhabited

/-- What a document holds. -/
inductive Definition where
  | operation (o : Operation)
  | fragment (f : Fragment)
  /-- A definition of types, of which nothing is kept. -/
  | types
  deriving Repr, Inhabited

namespace OperationKind

/-- How a kind of operation is written. -/
def text : OperationKind → String
  | query => "query"
  | mutation => "mutation"
  | subscription => "subscription"

/-- The kind of operation that is written so. -/
def ofText? (s : String) : Option OperationKind :=
  [query, mutation, subscription].find? fun k => k.text == s

end OperationKind

end EntityGraph.Document

namespace EntityGraph

/-- A request document. -/
abbrev Document := List Document.Definition

namespace Document

/-- The operations of a document. -/
def operations (d : Document) : List Operation :=
  d.filterMap fun
    | .operation o => some o
    | _ => none

/-- The fragments of a document. -/
def fragments (d : Document) : List Fragment :=
  d.filterMap fun
    | .fragment f => some f
    | _ => none

/-- The fragment with a name. Of two fragments with one name the last one counts. -/
def fragment? (fs : List Fragment) (name : String) : Option Fragment :=
  fs.reverse.find? (·.name == name)

/-- The names of fragments, each once. -/
def fragmentNames (fs : List Fragment) : List String :=
  fs.foldl (fun found f => if found.contains f.name then found else found ++ [f.name]) []

end Document

end EntityGraph
