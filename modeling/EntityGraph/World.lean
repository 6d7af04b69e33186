import EntityGraph.Host.Class
import EntityGraph.Schema.Basic

/-!
# Worlds

Values refer to classes, to objects and to the parts of a schema. A world holds what they refer to:
what was declared, and in its memory what was made or assigned since. An object in memory is as it
is now; whatever else is there, a class or a function, has the attributes that were assigned to it.
-/

namespace EntityGraph

/-- An object: its class and the attributes that were set, in the order in which they were. -/
structure ObjectDecl where
  type : HostType
  attributes : List (String × Value)

/-- An object of no class. -/
instance : Inhabited ObjectDecl := ⟨⟨.declared "", []⟩⟩

/-- An object with an attribute that has this value; a new attribute comes last. -/
def ObjectDecl.put (o : ObjectDecl) (name : String) (v : Value) : ObjectDecl :=
  { o with
    attributes :=
      if o.attributes.any (·.1 == name) then
        o.attributes.map fun (n, u) => (n, if n == name then v else u)
      else o.attributes ++ [(name, v)] }

/-- What was made, and what was assigned to. -/
abbrev Memory := List (Ref × ObjectDecl)

/-- A memory in which an object is as given. -/
def Memory.insert (m : Memory) (r : Ref) (o : ObjectDecl) : Memory :=
  (r, o) :: m.filter (·.1 != r)

/-- What the values of lambdas keep, by their numbers. -/
abbrev Closures := List (Nat × Closure)

/-- What values refer to. -/
structure World where
  classes : Classes
  objects : List (String × ObjectDecl)
  memory : Memory
  closures : Closures
  schema : Schema
  deriving Inhabited

namespace World

/-- An object as it is now. -/
def object (w : World) (r : Ref) : ObjectDecl :=
  match w.memory.lookup r, r with
  | some o, _ => o
  | none, .declared name => (w.objects.lookup name).getD default
  | none, _ => default

/-- An attribute that was assigned to a class or to a function. -/
def assigned? (w : World) (r : Ref) (name : String) : Option Value :=
  (w.memory.lookup r).bind (·.attributes.lookup name)

/-- The name of the class of an object. -/
def className (w : World) (r : Ref) : String := (w.object r).type.name

/-- The kind of the class of an object. -/
def objectKind (w : World) (r : Ref) : ClassKind := w.classes.kindOf (w.className r)

/-- What a class offers under a name, assigned attributes before declared ones, and those of its
own before those of its bases. -/
def classAttribute? (w : World) (className name : String) : Option Classes.Attribute :=
  (w.classes.lineage className).findSome? fun c =>
    match w.assigned? (.type (.declared c.name)) name with
    | some v => some (.default v)
    | none => c.attribute? name

/-- What an instance of a class has as its value of a field: the attribute that was set, or what the
class offers in its place. -/
def fieldValue? (w : World) (className : String) (attributes : List (String × Value))
    (m : MemberDecl) : Option Value :=
  match attributes.lookup m.name with
  | some v => some v
  | none =>
    match w.classAttribute? className m.name with
    | some (.default v) => some v
    | some .field => m.default
    | _ => none

/-- The fields of an object, in order; a field without a value has none. -/
def objectMembers (w : World) (r : Ref) : List (String × Option Value) :=
  let o := w.object r
  (w.classes.fields o.type.name).map fun m =>
    (m.name, w.fieldValue? o.type.name o.attributes m)

/-- The fields of an object that have values. -/
def objectFields (w : World) (r : Ref) : List (String × Value) :=
  (w.objectMembers r).filterMap fun (n, v) => v.map (n, ·)

/-- The fields under which an object is shown, if it is of a class that says so. -/
def shownFields? (w : World) (r : Ref) : Option (List (String × Value)) :=
  match (w.object r).type, w.objectKind r with
  | .builtin .celsius, _ => some ((w.object r).attributes.filter (·.1 == Builtin.degrees))
  | _, .record | _, .namedTuple => some (w.objectFields r)
  | _, _ => none

end World

end EntityGraph
