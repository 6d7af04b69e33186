import EntityGraph.Validity.Fragment
import EntityGraph.Document.Outline
import EntityGraph.Number.Binary

/-!
# Rules for values and variables

A value has the type of the argument that it is supplied to. Standard scalars and enumerations take
their own literals, other scalars take anything. Inside a list the elements are expected to have the
type of the list's elements; what is inside an object that a scalar takes is of no known type.

An operation declares each variable once with an input type and a default that suits it. Every
variable that it or one of its fragments uses is declared, and every declared one is used, at places
whose type admits all values of the variable. A place that must not be empty admits a variable that
may be empty if the variable or the place has a default.
-/

namespace EntityGraph.Validity

open Document Interface

/-- A literal at a place, with the type that is expected there. -/
structure Supplied where
  expected : Option TypeExpr
  /-- Whether the place has a default. -/
  hasDefault : Bool
  literal : Literal

mutual

/-- A literal and all literals inside it, in their places. -/
def partsOf (expected : Option TypeExpr) (hasDefault : Bool) : Literal → List Supplied
  | l@(.list ls) => ⟨expected, hasDefault, l⟩ :: partsOfList (expected.map (·.element)) ls
  | l@(.object fs) => ⟨expected, hasDefault, l⟩ :: partsOfFields fs
  | l => [⟨expected, hasDefault, l⟩]

/-- The literals inside a list. -/
def partsOfList (expected : Option TypeExpr) : List Literal → List Supplied
  | [] => []
  | l :: ls => partsOf expected false l ++ partsOfList expected ls

/-- The literals inside an object. -/
def partsOfFields : List (String × Literal) → List Supplied
  | [] => []
  | (_, l) :: fs => partsOf none false l ++ partsOfFields fs

end

/-- The literals that are supplied as arguments. -/
def suppliedTo (declared : List ArgumentDef) (args : List Argument) : List Supplied :=
  args.map fun (n, l) =>
    match declared.find? (·.name == n) with
    | some a => ⟨some a.type, a.hasDefault, l⟩
    | none => ⟨none, false, l⟩

/-- The literals that a selection supplies to its field and its directives. -/
def Mention.supplied (m : Mention) : List Supplied :=
  let own := match m.selection with
    | .field _ _ args .. => suppliedTo ((m.field?.map (·.args)).getD []) args
    | _ => []
  own ++ m.directives.flatMap fun d => suppliedTo ((directiveArgs? d.name).getD []) d.args

/-- A supplied literal and all literals inside it. -/
def Supplied.parts (s : Supplied) : List Supplied := partsOf s.expected s.hasDefault s.literal

/-- The whole numbers that fit into 32 bits. -/
def isNarrow (n : Int) : Bool := -(Number.twoTo 31 : Int) ≤ n && n < Number.twoTo 31

/-- Whether a type that is no list takes a literal. -/
def takes (t : TypeDef) (l : Literal) : Bool :=
  match t.body, l with
  | .object _, _ => false
  | .enumeration values, .enumeration n => values.contains n
  | .enumeration _, _ => false
  | .scalar, l =>
    match t.name, l with
    | "Int", .int s => isNarrow (Literal.intValue s)
    | "Float", .int _ | "Float", .float _ => true
    | "String", .str .. => true
    | "Boolean", .bool _ => true
    | "ID", .int _ | "ID", .str .. => true
    | name, _ => !standardScalars.contains name

/-- Whether a literal that is no list of a list type suits what is expected. -/
def leafFits (sys : TypeSystem) (expected : Option TypeExpr) (l : Literal) : Bool :=
  expected.all fun t => (sys.core? t).any fun d => takes d l

mutual

/-- Whether a literal suits the type that is expected. Variables are looked at elsewhere. -/
def literalFits (sys : TypeSystem) (expected : Option TypeExpr) : Literal → Bool
  | .var _ => true
  | .null => !expected.any (·.isNonNull)
  | .list ls =>
    if expected.any (·.isList) then literalsFit sys (expected.map (·.element)) ls
    else leafFits sys expected (.list ls)
  | l => leafFits sys expected l

/-- Whether several literals suit the type that is expected. -/
def literalsFit (sys : TypeSystem) (expected : Option TypeExpr) : List Literal → Bool
  | [] => true
  | l :: ls => literalFits sys expected l && literalsFit sys expected ls

end

/-- Whether objects inside a literal have no field twice. -/
def objectFits (s : Supplied) : Bool :=
  match s.literal with
  | .object fs => areUnique (fs.map (·.1))
  | _ => true

/-- Whether a supplied literal obeys the rules. -/
def Supplied.fits (sys : TypeSystem) (s : Supplied) : Bool :=
  literalFits sys s.expected s.literal && s.parts.all objectFits

/-- The type of a variable, if requests can supply values of it. -/
def inputType? (sys : TypeSystem) (t : TypeExpr) : Option TypeExpr :=
  if (sys.core? t).any (·.isInput) then some t else none

/-- Whether a variable is declared properly. -/
def variableFits (sys : TypeSystem) (v : VariableDef) : Bool :=
  (inputType? sys v.type).isSome
    && v.default.all fun l => Supplied.fits sys ⟨some v.type, false, l⟩

/-- Whether all values of one type are values of another one. -/
def isSubtype : TypeExpr → TypeExpr → Bool
  | .nonNull a, .nonNull b => isSubtype a b
  | .nonNull a, b => isSubtype a b
  | _, .nonNull _ => false
  | .list a, .list b => isSubtype a b
  | .named a, .named b => a == b
  | _, _ => false

/-- Whether a variable can stand at a place. -/
def isAllowed (v : VariableDef) (s : Supplied) : Bool :=
  match s.expected with
  | none => true
  | some (.nonNull t) =>
    if v.type.isNonNull then isSubtype v.type (.nonNull t)
    else
      let hasDefault := match v.default with
        | some .null | none => false
        | some _ => true
      (hasDefault || s.hasDefault) && isSubtype v.type t
  | some t => isSubtype v.type t

/-- The places of variables in an operation and its fragments. -/
def usages (sys : TypeSystem) (d : Document) (o : Operation) : List (String × Supplied) :=
  let inFragments := (fragmentsOf sys d o).flatMap fun n =>
    ((fragment? (fragments d) n).map (inFragment sys)).getD []
  ((inOperation sys o ++ inFragments).flatMap fun m => m.supplied.flatMap (·.parts)).filterMap
    fun s =>
      match s.literal with
      | .var n => some (n, s)
      | _ => none

/-- Whether an operation declares and uses its variables properly. -/
def variablesFit (sys : TypeSystem) (d : Document) (o : Operation) : Bool :=
  let used := usages sys d o
  areUnique (o.variableDefs.map (·.name))
    && o.variableDefs.all (variableFits sys)
    && o.variableDefs.all (fun v => used.any (·.1 == v.name))
    && used.all fun (n, s) => (o.variableDefs.find? (·.name == n)).any fun v => isAllowed v s

/-- The rules for values and variables. -/
def valuesHold (sys : TypeSystem) (d : Document) : Bool :=
  (inDocument sys d).all (fun m => m.supplied.all (·.fits sys))
    && (operations d).all (variablesFit sys d)

end EntityGraph.Validity
