import EntityGraph.Document.TypePhrase
import EntityGraph.Fault
import EntityGraph.Number.Decimal

/-!
# What a document requests

A request is carried out field by field. This module says which fields those are: it takes the one
query of a document, opens its fragments in place, leaves out what directives exclude, and gives
literals their values.

Variables are used as they were given, without regard to their declarations. A variable that was not
given leaves its argument out, or an undefined value where it stands inside a list or an object.

A fragment that contains itself would be opened forever. Opening is therefore bounded by the number
of fragments, which is enough for all others.
-/

namespace EntityGraph.Document

/-- The values of variables by their names. -/
abbrev Variables := List (String × Value)

/-- Puts an entry into a list of named values: an old name keeps its place. -/
def putNamed {α : Type} (es : List (String × α)) (name : String) (x : α) : List (String × α) :=
  if es.any (·.1 == name) then es.map fun e => if e.1 == name then (name, x) else e
  else es ++ [(name, x)]

namespace Literal

/-- The value of a whole number as it is written. -/
def intValue (written : String) : Int :=
  let (negative, ds) := Number.spanSign written.toList
  let n : Int := Number.digitsValue ds
  if negative then -n else n

/-- The value that a whole number is read as: with too many digits it is no number. -/
def readInt (written : String) : Value :=
  let (_, ds) := Number.spanSign written.toList
  if ds.length > Number.digitLimit then .ofFloat (0 / 0) else .int (intValue written)

mutual

/-- The value of a literal. -/
def value (vars : Variables) : Literal → Value
  | var n => (vars.lookup n).getD .undefined
  | int s => readInt s
  | float s => .ofFloat ((Number.read? s).getD 0)
  | str s _ => .str s
  | bool b => .bool b
  | null => .none
  | enumeration n => .str n
  | list ls => .list (values vars ls)
  | object fs => .dict ((fieldValues vars fs).map fun (n, v) => (.str n, v))

/-- The values of several literals. -/
def values (vars : Variables) : List Literal → List Value
  | [] => []
  | l :: ls => l.value vars :: values vars ls

/-- The fields of an object; of two fields with one name the last value counts. -/
def fieldValues (vars : Variables) : List (String × Literal) → List (String × Value)
  | [] => []
  | (n, l) :: fs =>
    let rest := fieldValues vars fs
    (n, (rest.lookup n).getD (l.value vars)) :: rest.filter (·.1 != n)

end

end Literal

/-- Whether a value is one that a missing variable leaves behind. -/
def isUndefined : Value → Bool
  | .undefined => true
  | _ => false

/-- The values of arguments by their names. -/
def argumentValues (vars : Variables) (args : List Argument) : List (String × Value) :=
  args.foldl (fun found (n, l) =>
    let v := l.value vars
    if isUndefined v then found else putNamed found n v) []

/-- The fault of a directive whose condition cannot be read. -/
def badCondition : Fault := .host .language "a directive has no usable condition"

/-- The condition of a directive: a truth value, or whatever a variable holds. -/
def condition (vars : Variables) (d : Directive) : Outcome Value :=
  match d.args.reverse.lookup "if" with
  | some (.bool b) => .ok (.bool b)
  | some (.var n) =>
    match vars.lookup n with
    | some v => if v.isNone then .error badCondition else .ok v
    | none => .error badCondition
  | _ => .error badCondition

/-- Whether the first directive with a name has exactly this condition. -/
def holds (vars : Variables) (ds : List Directive) (name : String) (expected : Bool) :
    Outcome Bool :=
  match ds.find? (·.name == name) with
  | none => .ok false
  | some d => do
    match ← condition vars d with
    | .bool b => .ok (b == expected)
    | _ => .ok false

/-- Whether directives let a selection stand. One that is skipped is not asked whether it is
included. -/
def isIncluded (vars : Variables) (ds : List Directive) : Outcome Bool := do
  if ← holds vars ds "skip" true then .ok false
  else do .ok (!(← holds vars ds "include" false))

/-- A field that a selection set holds, apart from its directives. -/
structure FieldNode where
  label : Option String
  name : String
  args : List Argument
  selections : List Selection
  deriving Inhabited

namespace FieldNode

/-- The name under which the value of a field is given out. -/
def output (f : FieldNode) : String := f.label.getD f.name

end FieldNode

/-- The fault of a fragment inside itself. -/
def endless : Fault := .host .tooDeep "maximum recursion depth exceeded"

section

variable (fs : List Fragment) (vars : Variables) (opened : Fragment → Outcome (List FieldNode))

mutual

/-- The fields of a selection; `opened` gives those of a fragment. -/
def collectOne : Selection → Outcome (List FieldNode)
  | .field label name args ds ss => do
    if ← isIncluded vars ds then .ok [⟨label, name, args, ss⟩] else .ok []
  | .inline _ ds ss => do
    if ← isIncluded vars ds then collectWith ss else .ok []
  | .spread name ds => do
    if ← isIncluded vars ds then
      match fragment? fs name with
      | some f => opened f
      | none => .error (.host .missingKey name)
    else .ok []

/-- The fields of several selections, one after the other. -/
def collectWith : List Selection → Outcome (List FieldNode)
  | [] => .ok []
  | s :: ss => do
    let found ← collectOne s
    .ok (found ++ (← collectWith ss))

end

end

/-- The fields of selections, with a bound on how deep fragments are opened. -/
def collectWithin (fs : List Fragment) (vars : Variables) :
    Nat → List Selection → Outcome (List FieldNode)
  | 0, ss => collectWith fs vars (fun _ => .error endless) ss
  | depth + 1, ss =>
    collectWith fs vars (fun f => collectWithin fs vars depth f.selections) ss

/-- The fields of selections. -/
def collect (fs : List Fragment) (vars : Variables) (ss : List Selection) :
    Outcome (List FieldNode) :=
  collectWithin fs vars fs.length ss

/-- A requested field: the name it is given out under, its own name, the values of its arguments,
and what is requested beneath it. -/
inductive Requested where
  | field (output name : String) (args : List (String × Value)) (children : List Requested)
  deriving Inhabited

/-- The requests that fields are, with a bound on their nesting; `check` may refuse a field. -/
def expandWithin (fs : List Fragment) (vars : Variables) (check : FieldNode → Outcome Unit) :
    Nat → List FieldNode → Outcome (List Requested)
  | 0, nodes => if nodes.isEmpty then .ok [] else .error endless
  | depth + 1, nodes => nodes.mapM fun node => do
    check node
    let children ← collect fs vars node.selections
    .ok (.field node.output node.name (argumentValues vars node.args)
      (← expandWithin fs vars check depth children))

mutual

/-- The number of selections in a selection. -/
def sizeOne : Selection → Nat
  | .field _ _ _ _ ss => sizeAll ss + 1
  | .spread .. => 1
  | .inline _ _ ss => sizeAll ss + 1

/-- The number of selections in several ones. -/
def sizeAll : List Selection → Nat
  | [] => 0
  | s :: ss => sizeOne s + sizeAll ss

end

/-- The number of selections in a document, which bounds how deep fields without a fragment inside
itself are nested. -/
def size (d : Document) : Nat :=
  sizeAll ((operations d).flatMap (·.selections))
    + sizeAll ((fragments d).flatMap (·.selections))

/-- The requests that fields of a document are. -/
def expand (d : Document) (vars : Variables) (check : FieldNode → Outcome Unit)
    (nodes : List FieldNode) : Outcome (List Requested) :=
  expandWithin (fragments d) vars check (size d + 1) nodes

/-- Reads a document, or fails as a request does. -/
def read (s : String) : Outcome Document :=
  match parse s with
  | some d => .ok d
  | none => .error .parsing

/-- The one query of a document. -/
def query (d : Document) : Outcome Operation :=
  match operations d with
  | [o] => if o.kind == .query then .ok o else .error (.notQuery o.kind.text)
  | os => .error (.operationCount os.length)

/-- All that the one query of a document requests. -/
def outline (d : Document) (vars : Variables) : Outcome (List Requested) := do
  let o ← query d
  expand d vars (fun _ => .ok ()) (← collect (fragments d) vars o.selections)

end EntityGraph.Document
