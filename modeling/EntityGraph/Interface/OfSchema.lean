import EntityGraph.Schema.Arguments
import EntityGraph.Interface.Introspection

/-!
# The type system that a schema offers

Every entity type of a schema becomes an object, every scalar type a scalar of the same name, and
every query a field of the root type. What belongs to introspection is left out: the request
language has introspection of its own.

Types are placed in the order in which the type system is written out. The given types come first:
the scalars that queries mention, the other scalars of the schema, and the objects. Right after an
object come the types that its fields reach and that are neither placed nor given; the root type
comes last. Placing an object looks at its fields, and only then are they checked.
-/

namespace EntityGraph.Interface

/-- A type that is to be placed: a scalar, an object or the root. -/
inductive Reached where
  | scalar (name description : String)
  | object (name : String)
  | root
  deriving DecidableEq, Repr, Inhabited

namespace Reached

/-- The name of a reached type. -/
def name : Reached → String
  | scalar n _ => n
  | object n => n
  | root => rootName

/-- Whether two reached types are the same one. Scalars are found by name alone. -/
def same : Reached → Reached → Bool
  | scalar a _, scalar b _ => a == b
  | object a, object b => a == b
  | root, root => true
  | _, _ => false

end Reached

/-- A field on its way into the type system, with the types it reaches. -/
structure Draw where
  field : FieldDef
  reaches : List Reached

/-- The fault of a name that the request language does not allow. -/
def badName (name : String) : Fault :=
  .host .language ("Names must only contain [_a-zA-Z0-9] but " ++ Text.quoted name ++ " does not.")

/-- The fault of two types with one name, or of a type with a name that the language defines. -/
def takenName (name : String) : Fault :=
  .wrongType ("Schema must contain uniquely named types but contains multiple types named '"
    ++ name ++ "'.")

/-- Fails if a text is no name. -/
def checkName (name : String) : Outcome Unit :=
  if isName name then .ok () else .error (badName name)

/-- Fails if a new type cannot have this name. -/
def checkTypeName (name : String) : Outcome Unit :=
  if standardScalars.contains name || introspectionTypes.any (·.name == name) then
    .error (takenName name)
  else checkName name

/-- The scalar that a scalar type of the schema becomes. The standard scalars are there already. -/
def scalarOf (t : TypeDecl) : Outcome Reached := do
  if standardScalars.contains t.name then .ok (.scalar t.name "")
  else do
    checkTypeName t.name
    .ok (.scalar t.name t.description)

/-- The objects that the types of a schema become. -/
def objectTypes (s : Schema) : List TypeDecl :=
  s.types.filter fun t => !t.isScalar && !isReserved t.name

/-- The type that values of a type of the schema have. -/
def reachedBy (s : Schema) (t : TypeDecl) : Outcome Reached :=
  if t.isScalar then scalarOf t
  else if (objectTypes s).any (·.name == t.name) then .ok (.object t.name)
  else .error (.host .missingKey t.name)

/-- An argument, with the scalar it takes. -/
def drawArgument (s : Schema) (name : Value) (host : HostType) :
    Outcome (ArgumentDef × Reached) := do
  let r ← scalarOf (s.typeOf host)
  let some name := name.text? | .error (.wrongType "Expected name to be a string.")
  .ok ({ name, type := .named r.name, hasDefault := false }, r)

/-- A field, with the types it reaches. -/
def drawField (w : World) (name description : String) (host : HostType) (isList : Bool)
    (shape : ArgShape) : Outcome Draw := do
  let s := w.schema
  let r ← reachedBy s (s.typeOf host)
  let type : TypeExpr := if isList then .list (.named r.name) else .named r.name
  let args ← (← shape.types w).mapM fun (n, h) => drawArgument s n h
  args.forM fun (a, _) => checkName a.name
  .ok { field := { name, description, args := args.map (·.1), type }
        reaches := r :: args.map (·.2) }

/-- The fault of an object whose fields cannot be drawn. What the language refuses stays as it
is. -/
def unresolved (name : String) (f : Fault) : Fault :=
  match f with
  | .host .language _ => f
  | _ => .wrongType (name ++ " fields cannot be resolved.")

/-- The fields of an object. -/
def drawFields (w : World) (t : TypeDecl) : Outcome (List Draw) := do
  let fields := t.fields.filter (!isReserved ·.name)
  let drawn ← (fields.mapM fun f =>
    drawField w f.name f.description f.host f.isList f.shape).mapError (unresolved t.name)
  drawn.forM fun d => checkName d.field.name
  .ok drawn

/-- The fields of the root type. -/
def drawQueries (w : World) : Outcome (List Draw) :=
  (w.schema.queries.filter (!isReserved ·.name)).mapM fun q =>
    drawField w q.name q.description q.host q.isList q.shape

/-- The placed types, each with its fields. -/
abbrev Placed := List (Reached × List Draw)

/-- Whether a type is placed. -/
def Placed.holds (done : Placed) (r : Reached) : Bool := done.any (·.1.same r)

/-- Places a type and after it the types it reaches, unless they are placed or wait as given types.
The bound is on how many objects lead from one to the next. -/
def place (fieldsOf : Reached → Outcome (List Draw)) (waiting : List Reached) :
    Nat → Placed → Reached → Outcome Placed
  | 0, done, _ => .ok done
  | depth + 1, done, r =>
    if done.holds r || waiting.any (·.same r) then .ok done
    else do
      let drawn ← fieldsOf r
      (drawn.flatMap (·.reaches)).foldlM (place fieldsOf waiting depth) (done ++ [(r, drawn)])

/-- Places the given types one after the other; each waits until it is its turn. -/
def placeAll (fieldsOf : Reached → Outcome (List Draw)) (depth : Nat) :
    List Reached → Placed → Outcome Placed
  | [], done => .ok done
  | r :: rest, done => do placeAll fieldsOf depth rest (← place fieldsOf rest depth done r)

/-- Reached types, each once. -/
def distinctReached (rs : List Reached) : List Reached :=
  rs.foldl (fun found r => if found.any (·.same r) then found else found ++ [r]) []

/-- The description of a type. Of two scalars with one name the one that was met first counts. -/
def descriptionOf (s : Schema) (met : List Reached) (r : Reached) : String :=
  match r with
  | .scalar _ own =>
    match met.find? (·.same r) with
    | some (.scalar _ first) => first
    | _ => own
  | .object name => ((s.types.find? (·.name == name)).map (·.description)).getD ""
  | .root => ""

/-- A placed type. -/
def definition (s : Schema) (met : List Reached) (r : Reached) (drawn : List Draw) : TypeDef :=
  { name := r.name, description := descriptionOf s met r
    body :=
      match r with
      | .scalar .. => .scalar
      | _ => .object (drawn.map (·.field)) }

/-- The scalars that the language itself mentions: directives and introspection use them. -/
def languageScalars : List Reached := [.scalar "Boolean" "", .scalar "String" ""]

/-- Fails if two types have one name. -/
def checkDistinct : List String → Outcome Unit
  | [] => .ok ()
  | n :: ns => if ns.contains n then .error (takenName n) else checkDistinct ns

/-- Whether a reached type is a scalar. -/
def Reached.isScalar : Reached → Bool
  | scalar .. => true
  | _ => false

/-- The fields of a reached type. The root type has those that were drawn of the queries. -/
def drawsOf (w : World) (queries : List Draw) : Reached → Outcome (List Draw)
  | .scalar .. => .ok []
  | .object name => drawFields w (((objectTypes w.schema).find? (·.name == name)).getD default)
  | .root => do
    queries.forM fun d => checkName d.field.name
    .ok queries

/-- The types that are placed first: scalars and after them all objects. -/
def givenTypes (s : Schema) (first : List Reached) : List Reached :=
  distinctReached first ++ (objectTypes s).map fun t => .object t.name

/-- All types of a schema in their places. -/
def placeTypes (w : World) (queries : List Draw) (first : List Reached) : Outcome Placed := do
  let depth := (objectTypes w.schema).length + 2
  let placed ← placeAll (drawsOf w queries) depth (givenTypes w.schema first) []
  (.root :: languageScalars).foldlM (place (drawsOf w queries) [] depth) placed

/-- The type system of the schema of a world. -/
def ofSchema (w : World) : Outcome TypeSystem := do
  let s := w.schema
  (objectTypes s).forM fun t => checkTypeName t.name
  let queries ← drawQueries w
  let entries ← s.scalars.mapM fun e => scalarOf e.typeDecl
  let first := (queries.flatMap (·.reaches)).filter (·.isScalar) ++ entries
  let placed ← placeTypes w queries first
  checkDistinct (placed.map (·.1.name))
  let met := first ++ (placed.flatMap (·.2)).flatMap (·.reaches)
  .ok { types := placed.map fun (r, drawn) => definition s met r drawn }

end EntityGraph.Interface
