import EntityGraph.Validity.Mention

/-!
# Rules for operations and fragments

Operations and fragments have unique names, and an operation without a name stands alone. A fragment
stands on an object, is opened by some operation, and never contains itself. Wherever a fragment is
opened, its object is the one beneath which it is opened.
-/

namespace EntityGraph.Validity

open Document Interface

/-- Whether a document holds nothing but operations and fragments. -/
def isExecutable (d : Document) : Bool :=
  d.all fun
    | .types => false
    | _ => true

/-- Whether operations have unique names, and one without a name is the only one. -/
def operationsNamed (d : Document) : Bool :=
  let os := operations d
  areUnique (os.filterMap (·.name)) && (os.length ≤ 1 || os.all (·.name.isSome))

/-- The fragments that selections open themselves. -/
def opened (ms : List Mention) : List String := ms.filterMap (·.spread?)

/-- The fragments that the fragment with a name opens itself. -/
def openedBy (sys : TypeSystem) (d : Document) (name : String) : List String :=
  ((fragment? (fragments d) name).map fun f => opened (inFragment sys f)).getD []

/-- Puts names into a list, each once. -/
def addNames (found names : List String) : List String :=
  names.foldl (fun found n => if found.contains n then found else found ++ [n]) found

/-- All fragments that these ones lead to, in so many steps. -/
def reachWithin (sys : TypeSystem) (d : Document) : Nat → List String → List String
  | 0, found => found
  | n + 1, found => reachWithin sys d n (addNames found (found.flatMap (openedBy sys d)))

/-- All fragments that these ones lead to, with themselves. -/
def reach (sys : TypeSystem) (d : Document) (names : List String) : List String :=
  reachWithin sys d (fragments d).length (addNames [] names)

/-- All fragments that an operation opens. -/
def fragmentsOf (sys : TypeSystem) (d : Document) (o : Operation) : List String :=
  reach sys d (opened (inOperation sys o))

/-- Whether fragments have unique names. -/
def fragmentsNamed (d : Document) : Bool := areUnique ((fragments d).map (·.name))

/-- Whether every fragment that is opened is there. -/
def fragmentsKnown (sys : TypeSystem) (d : Document) : Bool :=
  (opened (inDocument sys d)).all fun n => (fragments d).any (·.name == n)

/-- Whether every fragment is opened by an operation. -/
def fragmentsUsed (sys : TypeSystem) (d : Document) : Bool :=
  let used := (operations d).flatMap (fragmentsOf sys d)
  (fragments d).all fun f => used.contains f.name

/-- Whether no fragment contains itself. -/
def isAcyclic (sys : TypeSystem) (d : Document) : Bool :=
  (fragments d).all fun f => !(reach sys d (openedBy sys d f.name)).contains f.name

/-- The types that selections and fragments are conditional on. -/
def conditions (sys : TypeSystem) (d : Document) : List String :=
  ((inDocument sys d).filterMap fun m =>
    match m.selection with
    | .inline onType _ _ => onType
    | _ => none) ++ (fragments d).map (·.onType)

/-- Whether all conditions name objects. -/
def conditionsHold (sys : TypeSystem) (d : Document) : Bool :=
  (conditions sys d).all fun n => (sys.object? n).isSome

/-- Whether objects are the same, as far as they are known. -/
def mayBeSame (a b : Option TypeDef) : Bool :=
  match a, b with
  | some a, some b => a.name == b.name
  | _, _ => true

/-- Whether what a selection opens can stand beneath its object. -/
def opensProperly (sys : TypeSystem) (d : Document) (m : Mention) : Bool :=
  match m.selection with
  | .field .. => true
  | .spread name _ =>
    mayBeSame ((fragment? (fragments d) name).bind fun f => sys.object? f.onType) m.parent
  | .inline onType _ _ => mayBeSame (onType.bind sys.object?) m.parent

/-- Whether everything that is opened can stand where it is. -/
def spreadsFit (sys : TypeSystem) (d : Document) : Bool :=
  (inDocument sys d).all (opensProperly sys d)

/-- The rules for operations and fragments. -/
def structureHolds (sys : TypeSystem) (d : Document) : Bool :=
  isExecutable d && operationsNamed d && fragmentsNamed d && fragmentsKnown sys d
    && fragmentsUsed sys d && isAcyclic sys d && conditionsHold sys d && spreadsFit sys d

end EntityGraph.Validity
