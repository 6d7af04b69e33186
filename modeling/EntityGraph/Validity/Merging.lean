import EntityGraph.Validity.Fragment
import EntityGraph.Document.Outline

/-!
# Fields that can be merged

Fields with one output name in one selection set are given out together. They must therefore be the
same field with the same arguments, have types of one shape, and their own selections must agree in
the same way. Fields beneath two different objects never meet in one answer, so only the shapes of
their types matter.

Arguments agree if they are written alike, in whatever order.
-/

namespace EntityGraph.Validity

open Document Interface

/-- A field of a selection set whose fragments are opened, with the object beneath which it stands
and the field that it means there. -/
structure Open where
  parent : Option TypeDef
  field : Option FieldDef
  node : FieldNode

section

variable (sys : TypeSystem) (fragmentFields : String → List Open)

mutual

/-- The fields of a selection; `fragmentFields` gives those of a fragment. -/
def openOne (parent : Option TypeDef) : Selection → List Open
  | .field label name args _ ss =>
    [⟨parent, parent.bind fun t => t.fields.find? (·.name == name), ⟨label, name, args, ss⟩⟩]
  | .spread name _ => fragmentFields name
  | .inline onType _ ss => openAll (under sys parent onType) ss

/-- The fields of several selections. -/
def openAll (parent : Option TypeDef) : List Selection → List Open
  | [] => []
  | s :: ss => openOne parent s ++ openAll parent ss

end

end

/-- The fields of a fragment, with a bound on how deep fragments are opened. -/
def openFragment (sys : TypeSystem) (d : Document) : Nat → String → List Open
  | 0, _ => []
  | n + 1, name =>
    match fragment? (fragments d) name with
    | some f => openAll sys (openFragment sys d n) (sys.object? f.onType) f.selections
    | none => []

/-- The fields of a selection set. -/
def fieldsIn (sys : TypeSystem) (d : Document) (parent : Option TypeDef)
    (ss : List Selection) : List Open :=
  openAll sys (openFragment sys d (fragments d).length) parent ss

mutual

/-- Whether two literals are written alike, apart from the order of fields in objects. -/
def writtenAlike : Literal → Literal → Bool
  | .var a, .var b => a == b
  | .int a, .int b => a == b
  | .float a, .float b => a == b
  | .str a x, .str b y => a == b && x == y
  | .bool a, .bool b => a == b
  | .null, .null => true
  | .enumeration a, .enumeration b => a == b
  | .list as, .list bs => allAlike as bs
  | .object as, .object bs => as.length == bs.length && fieldsAlike as bs
  | _, _ => false

/-- Whether several literals are written alike, one by one. -/
def allAlike : List Literal → List Literal → Bool
  | [], [] => true
  | a :: as, b :: bs => writtenAlike a b && allAlike as bs
  | _, _ => false

/-- Whether every field of an object has a partner that is written alike. -/
def fieldsAlike : List (String × Literal) → List (String × Literal) → Bool
  | [], _ => true
  | (n, a) :: as, bs => ((bs.lookup n).any fun b => writtenAlike a b) && fieldsAlike as bs

end

/-- Whether two fields get the same arguments. -/
def sameArguments (as bs : List Argument) : Bool := writtenAlike (.object as) (.object bs)

/-- Whether values of two types cannot be told apart by their shape. -/
def sameShape (sys : TypeSystem) : TypeExpr → TypeExpr → Bool
  | .list a, .list b => sameShape sys a b
  | .nonNull a, .nonNull b => sameShape sys a b
  | .named a, .named b => a == b || ((sys.object? a).isSome && (sys.object? b).isSome)
  | _, _ => false

/-- Whether the types of two fields have one shape, as far as they are known. -/
def shapesAgree (sys : TypeSystem) (a b : Option FieldDef) : Bool :=
  match a, b with
  | some a, some b => sameShape sys a.type b.type
  | _, _ => true

/-- The object that a field leads to. -/
def Open.target (sys : TypeSystem) (o : Open) : Option TypeDef := beneath sys o.field

/-- Whether two fields can be given out together, with a bound on the nesting of their selections;
`apart` says that they never meet. -/
def agree (sys : TypeSystem) (d : Document) : Nat → Bool → Open → Open → Bool
  | 0, _, _, _ => true
  | n + 1, apart, a, b =>
    let apart := apart || !mayBeSame a.parent b.parent
    (apart || (a.node.name == b.node.name && sameArguments a.node.args b.node.args))
      && shapesAgree sys a.field b.field
      && (fieldsIn sys d (a.target sys) a.node.selections).all fun x =>
        (fieldsIn sys d (b.target sys) b.node.selections).all fun y =>
          x.node.output != y.node.output || agree sys d n apart x y

/-- Whether every two fields with one output name agree. -/
def allAgree (sys : TypeSystem) (d : Document) : List Open → Bool
  | [] => true
  | a :: rest =>
    (rest.all fun b => a.node.output != b.node.output || agree sys d (size d + 1) false a b)
      && allAgree sys d rest

/-- The selection sets of a document, each with its object. -/
def selectionSets (sys : TypeSystem) (d : Document) : List (Option TypeDef × List Selection) :=
  (operations d).map (fun o => (rootOf sys o, o.selections))
    ++ (fragments d).map (fun f => (sys.object? f.onType, f.selections))
    ++ (inDocument sys d).filterMap fun m =>
      match m.selection with
      | .field _ _ _ _ ss => some (beneath sys m.field?, ss)
      | _ => none

/-- The rule for fields that are merged. -/
def mergingHolds (sys : TypeSystem) (d : Document) : Bool :=
  (selectionSets sys d).all fun (parent, ss) => allAgree sys d (fieldsIn sys d parent ss)

end EntityGraph.Validity
