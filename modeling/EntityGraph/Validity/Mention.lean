import EntityGraph.Document.Basic
import EntityGraph.Interface.Introspection

/-!
# Selections in their places

The rules for documents look at every selection together with the object beneath which it stands.
That object is known as long as the fields and conditions on the way to it are; beneath an operation
that is no query nothing is known.
-/

namespace EntityGraph.Validity

open Document Interface

/-- A selection with the object beneath which it stands, if it is known. -/
structure Mention where
  parent : Option TypeDef
  selection : Selection

/-- The field that is meant beneath an object. -/
def fieldOf (parent : Option TypeDef) (name : String) : Option FieldDef :=
  parent.bind (·.fieldNamed? name)

/-- The object that a field leads to. -/
def beneath (sys : TypeSystem) (f : Option FieldDef) : Option TypeDef :=
  f.bind fun f => (sys.core? f.type).filter (·.isObject)

/-- The object that a condition leads to; without a condition it is the same one. -/
def under (sys : TypeSystem) (parent : Option TypeDef) : Option String → Option TypeDef
  | some name => sys.object? name
  | none => parent

mutual

/-- A selection and all selections inside it. -/
def mentions (sys : TypeSystem) (parent : Option TypeDef) : Selection → List Mention
  | s@(.field _ name _ _ ss) =>
    ⟨parent, s⟩ :: mentionsAll sys (beneath sys (fieldOf parent name)) ss
  | s@(.spread ..) => [⟨parent, s⟩]
  | s@(.inline onType _ ss) => ⟨parent, s⟩ :: mentionsAll sys (under sys parent onType) ss

/-- Several selections and all selections inside them. -/
def mentionsAll (sys : TypeSystem) (parent : Option TypeDef) : List Selection → List Mention
  | [] => []
  | s :: ss => mentions sys parent s ++ mentionsAll sys parent ss

end

/-- The object whose fields an operation selects. -/
def rootOf (sys : TypeSystem) (o : Operation) : Option TypeDef :=
  if o.kind == .query then sys.object? rootName else none

/-- All selections of an operation. -/
def inOperation (sys : TypeSystem) (o : Operation) : List Mention :=
  mentionsAll sys (rootOf sys o) o.selections

/-- All selections of a fragment. -/
def inFragment (sys : TypeSystem) (f : Fragment) : List Mention :=
  mentionsAll sys (sys.object? f.onType) f.selections

/-- All selections of a document. -/
def inDocument (sys : TypeSystem) (d : Document) : List Mention :=
  (operations d).flatMap (inOperation sys) ++ (fragments d).flatMap (inFragment sys)

/-- Whether no name occurs twice. -/
def areUnique : List String → Bool
  | [] => true
  | n :: ns => !ns.contains n && areUnique ns

namespace Mention

/-- The field that a selection means. -/
def field? (m : Mention) : Option FieldDef :=
  match m.selection with
  | .field _ name .. => fieldOf m.parent name
  | _ => none

/-- The directives of a selection. -/
def directives (m : Mention) : List Directive :=
  match m.selection with
  | .field _ _ _ ds _ => ds
  | .spread _ ds => ds
  | .inline _ ds _ => ds

/-- The fragment that a selection opens. -/
def spread? (m : Mention) : Option String :=
  match m.selection with
  | .spread name _ => some name
  | _ => none

end Mention

end EntityGraph.Validity
