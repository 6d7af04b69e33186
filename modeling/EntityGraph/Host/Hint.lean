import EntityGraph.Host.Kind

/-!
# Type hints

A member of a class may carry a hint of the type of its values. Of a hint only two things matter
here: the host type of the value, or of its elements, and whether the value is a sequence. An
optional type counts as the type itself. A union of several types, and any other hint that is
neither a class nor one of the recognised generic sequences, is the unknown type.

A union opens the unions inside it and mentions each type once, so a union of one type is that
type. Two types are the same if they have the same form and the same arguments, and two unions if
they have the same members in any order. A union of several types written with bars is the unknown
type, unless one of its members is a generic form: then it is a union like any other.
-/

namespace EntityGraph

/-- A type hint. -/
inductive Hint where
  | type (t : HostType)
  /-- The missing value as a hint. -/
  | missing
  /-- A union in its generic form, of which an optional type is a special case. -/
  | union (members : List Hint)
  /-- A union written with bars. -/
  | bar (members : List Hint)
  /-- A recognised sequence under the name of its form, with its arguments. A generic form turns a
  missing argument into the class of the missing value. -/
  | sequence (form : String) (generic : Bool) (args : List Hint)
  /-- A hint that belongs to the class and not to its instances. -/
  | classVar (inner : Hint)
  /-- Any other hint under the name of its form. -/
  | other (form : String) (generic : Bool) (args : List Hint)
  deriving Inhabited

/-- The type of a member: the host type of its value or of its elements, and whether it holds a
sequence of them. -/
structure MemberType where
  host : HostType
  isList : Bool
  deriving DecidableEq, Repr, Inhabited

/-- The type of a member about which nothing is known. -/
def MemberType.unknown : MemberType := ⟨.builtin .object, false⟩

/-- The kinds of columns of a table, with the types of their values. -/
def columnTypes : List (String × Builtin) :=
  [("Integer", .int), ("String", .str), ("Float", .float), ("Boolean", .bool), ("Date", .date),
    ("DateTime", .timestamp), ("LargeBinary", .bytes), ("Numeric", .decimal)]

/-- The type of the values in a column of a kind. -/
def MemberType.ofColumn (kind : String) : MemberType :=
  ((columnTypes.lookup kind).map fun b => ⟨.builtin b, false⟩).getD .unknown

namespace Hint

/-- The class of the missing value. -/
def missingType : HostType := .builtin .noneType

mutual

/-- The members of a hint inside a union. -/
def members : Hint → List Hint
  | union hs => membersList hs
  | bar hs => membersList hs
  | missing => [type missingType]
  | h => [h]

/-- The members of several hints inside a union. -/
def membersList : List Hint → List Hint
  | [] => []
  | h :: hs => h.members ++ membersList hs

end

/-- What a hint is apart from its arguments. -/
inductive Head where
  | type (t : HostType)
  | union
  | sequence (form : String) (generic : Bool)
  | classVar
  | other (form : String) (generic : Bool)
  deriving DecidableEq

/-- What a hint is apart from its arguments; the missing value stands for its class. -/
def head : Hint → Head
  | type t => .type t
  | missing => .type missingType
  | union _ | bar _ => .union
  | sequence form generic _ => .sequence form generic
  | classVar _ => .classVar
  | other form generic _ => .other form generic

/-- The arguments of a hint. -/
def args : Hint → List Hint
  | union hs | bar hs | sequence _ _ hs | other _ _ hs => hs
  | classVar h => [h]
  | type _ | missing => []

/-- Whether a hint is the missing value. -/
def isMissing : Hint → Bool
  | missing => true
  | _ => false

/-- Whether hints pass tests, one by one. -/
def passEach : List (Hint → Bool) → List Hint → Bool
  | [], [] => true
  | test :: tests, h :: hs => test h && passEach tests hs
  | _, _ => false

/-- Whether hints pass tests in any order: each test is passed by one of them, and each of them
passes one of the tests. -/
def passAll (tests : List (Hint → Bool)) (hs : List Hint) : Bool :=
  tests.all (fun test => hs.any test) && hs.all fun h => tests.any fun test => test h

/-- Whether a hint has this head and arguments that pass these tests. -/
def isForm (head : Head) (tests : List (Hint → Bool)) (h : Hint) : Bool :=
  h.head == head && passEach tests h.args

mutual

/-- The members of a hint inside a union, each as the test whether another member is the same
type. -/
def tests : Hint → List (Hint → Bool)
  | type t => [isForm (.type t) []]
  | missing => [isForm (.type missingType) []]
  | union hs | bar hs => testsList hs
  | sequence form generic hs => [isForm (.sequence form generic) (argTests generic hs)]
  | classVar h => [isForm .classVar [fun g => passAll h.tests g.members]]
  | other form generic hs => [isForm (.other form generic) (argTests generic hs)]

/-- The members of several hints inside a union, each as a test. -/
def testsList : List Hint → List (Hint → Bool)
  | [] => []
  | h :: hs => h.tests ++ testsList hs

/-- The arguments of a form, each as the test whether another argument is the same type. Only a
generic form turns a missing argument into its class. -/
def argTests (generic : Bool) : List Hint → List (Hint → Bool)
  | [] => []
  | h :: hs =>
    (fun g => (generic || g.isMissing == h.isMissing) && passAll h.tests g.members)
      :: argTests generic hs

end

/-- Whether two hints are the same type. A union is the set of its members. -/
def alike (h g : Hint) : Bool := passAll h.tests g.members

/-- Whether all hints are the same type. -/
def areAlike : List Hint → Bool
  | [] => true
  | h :: hs => hs.all h.alike

mutual

/-- Whether a hint is one of the generic forms. A union of one type is that type. -/
def isGeneric : Hint → Bool
  | sequence _ generic _ => generic
  | other _ generic _ => generic
  | union hs => !areAlike (membersList hs) || anyGeneric hs
  | bar hs => anyGeneric hs
  | _ => false

/-- Whether one of several hints is one of the generic forms. -/
def anyGeneric : List Hint → Bool
  | [] => false
  | h :: hs => h.isGeneric || anyGeneric hs

end

/-- The members of a union, each once and in the order of their first mention. -/
def distinct (parts : List (Hint × MemberType)) : List (Hint × MemberType) :=
  parts.foldl (fun found p => if found.any (·.1.alike p.1) then found else found ++ [p]) []

/-- The type of a union of these members: that of the only one apart from the missing value. -/
def choose (parts : List (Hint × MemberType)) : MemberType :=
  match (distinct parts).filter (!·.1.alike (type missingType)) with
  | [] => ⟨missingType, false⟩
  | [p] => p.2
  | _ => .unknown

/-- The type of a union written with bars. -/
def chooseBar (generic : Bool) (parts : List (Hint × MemberType)) : MemberType :=
  if generic then choose parts
  else
    match distinct parts with
    | [p] => p.2
    | _ => .unknown

/-- The type of a sequence whose elements have this type; sequences of sequences are opaque. -/
def sequenceOf (element : MemberType) : MemberType :=
  ⟨if element.isList then .builtin .object else element.host, true⟩

mutual

/-- The type of a member with this hint. -/
def memberType : Hint → MemberType
  | type t => ⟨t, false⟩
  | union hs => choose (partsList hs)
  | bar hs => chooseBar (anyGeneric hs) (partsList hs)
  | sequence _ generic args => sequenceOf (elementType generic args)
  | missing | classVar _ | other .. => .unknown

/-- The members of a hint inside a union, with their types. -/
def parts : Hint → List (Hint × MemberType)
  | union hs => partsList hs
  | bar hs => partsList hs
  | missing => [(type missingType, ⟨missingType, false⟩)]
  | type t => [(type t, ⟨t, false⟩)]
  | h@(sequence _ generic args) => [(h, sequenceOf (elementType generic args))]
  | h => [(h, .unknown)]

/-- The members of several hints inside a union, with their types. -/
def partsList : List Hint → List (Hint × MemberType)
  | [] => []
  | h :: hs => h.parts ++ partsList hs

/-- The type of the elements of a sequence with these arguments. -/
def elementType (generic : Bool) : List Hint → MemberType
  | [] => ⟨.any, false⟩
  | h :: _ =>
    match h with
    | missing => if generic then ⟨missingType, false⟩ else .unknown
    | h => h.memberType

end

/-- A literal type: a form of its own, whose name tells its values in no order of theirs. -/
def literal (values : List String) : Hint :=
  other ("literal " ++ ", ".intercalate (values.eraseDups.mergeSort (· ≤ ·))) true []

/-- The hint of a class member: the missing value stands for its class. -/
def ofMember : Hint → Hint
  | missing => type missingType
  | h => h

/-- Whether a hint belongs to the class and not to its instances. -/
def isClassVar : Hint → Bool
  | classVar _ => true
  | _ => false

/-- Several hints with bars between them; one alone is itself. -/
def ofBars : List Hint → Hint
  | [h] => h
  | hs => bar hs

mutual

/-- Whether the parts of a hint may stand where they do. Unions have members, bars do not start
between two missing values, and a hint that belongs to a class is no part of another one, except of
generic classes that are no generic forms. -/
def isSound : Hint → Bool
  | type _ | missing => true
  | union hs => !hs.isEmpty && !hs.any isClassVar && allSound hs
  | bar hs =>
    match hs with
    | [] | missing :: missing :: _ => false
    | hs => !hs.any isClassVar && allSound hs
  | sequence _ generic hs | other _ generic hs => !(generic && hs.any isClassVar) && allSound hs
  | classVar h => !h.isClassVar && h.isSound

/-- Whether the parts of several hints may stand where they do. -/
def allSound : List Hint → Bool
  | [] => true
  | h :: hs => h.isSound && allSound hs

end

/-- The class that a hint is, if it is nothing but a class. -/
def asClass? : Hint → Option HostType
  | type t => some t
  | missing => some missingType
  | union hs | bar hs =>
    match distinct (partsList hs) with
    | [(type t, _)] => some t
    | _ => none
  | _ => none

end Hint

end EntityGraph
