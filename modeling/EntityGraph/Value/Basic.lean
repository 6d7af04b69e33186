import EntityGraph.Host.Kind
import EntityGraph.Scope
import EntityGraph.Script.Basic
import EntityGraph.Calendar.Date
import EntityGraph.Number.ComplexFloat
import EntityGraph.Number.DecimalFloat
import EntityGraph.Uuid

/-!
# Host values

Values are what contexts hold, scripts compute with and queries give back: plain data, references
to declared objects, instances, classes, functions, recording proxies and the records that queries
produce.

Objects, whether they are declared or made, are references, since they may refer to one another in
cycles and since their attributes can be assigned to; what they hold is looked up in a world.
Functions keep what they close over.

Values that are equal to nothing but themselves bear a mark, which tells them apart: two of them are
the same object exactly if they bear the same mark other than zero. A value that was just computed
bears the mark zero, until it becomes an object of its own.
-/

namespace EntityGraph

/-- A reference to the description of a type of a schema. -/
inductive TypeRef where
  /-- The declared type at this place. -/
  | declared (index : Nat)
  /-- The type of the scalar at this place of the registry. -/
  | scalar (index : Nat)
  /-- The undeclared scalar type of a host type. -/
  | adHoc (host : HostType)
  deriving DecidableEq, Repr, Inhabited

/-- Functions that come with the library. -/
inductive Primitive where
  | len | abs | sum | max
  | parseDate | parseTimestamp | parseUuid | narrowInt | narrowFloat
  | reverse | reverseStr | reverseQuoted | length | negate | double | toDateOrdinal | toCelsius
  | listify | fail
  deriving DecidableEq, Repr, Inhabited

/-- The place of an expression in the one that was made with a number: which part to take, step by
step. An expression that was not made by itself has the number zero. -/
structure Position where
  root : Nat
  path : List Nat
  deriving DecidableEq, Repr, Inhabited

namespace Position

/-- The place of an expression that is not yet an object of its own. -/
def loose : Position := ⟨0, []⟩

/-- The place of a part of an expression. -/
def part (p : Position) (i : Nat) : Position := ⟨p.root, p.path ++ [i]⟩

end Position

/-- What has attributes that can be assigned to. -/
inductive Ref where
  /-- A declared object. -/
  | declared (name : String)
  /-- An object that was made, by its number. -/
  | made (number : Nat)
  | type (t : HostType)
  /-- A function that a class holds under a name. -/
  | function (t : HostType) (name : String)
  | expression (p : Position)
  deriving DecidableEq, Repr, Inhabited

/-- A host value. -/
inductive Value where
  | none
  | bool (b : Bool)
  | int (n : Int)
  | float (x : Float) (mark : Nat)
  | str (s : String)
  | list (elements : List Value)
  | tuple (elements : List Value)
  | dict (entries : List (Value × Value))
  /-- A dictionary to which the order of its entries matters. -/
  | orderedDict (entries : List (Value × Value)) (mark : Nat)
  /-- A set: each element once. -/
  | set (elements : List Value)
  | bytes (bs : List UInt8)
  | decimal (d : DecimalFloat) (mark : Nat)
  | complex (z : ComplexFloat) (mark : Nat)
  | date (d : Calendar.Date)
  | timestamp (t : Calendar.Timestamp)
  | span (s : Calendar.Span)
  /-- A zone by its offset in minutes. -/
  | zone (minutes : Int)
  | uuid (u : Uuid)
  /-- An instance of a class that an application declares. -/
  | object (r : Ref)
  | type (t : HostType)
  /-- A generic class with values for its parameters. -/
  | generic (t : HostType) (params : List Value)
  | primitive (p : Primitive)
  /-- A method of a value. -/
  | method (receiver : Value) (name : String)
  /-- The value of a lambda, by its number. -/
  | closure (number : Nat)
  /-- A function of the application, with its number and the variables around it. -/
  | function (id : Nat) (params : List String) (star : Option String) (body : Script Value)
      (env : List (String × Value))
  /-- A function that supplies some arguments of another one. -/
  | supplied (function : Value)
  /-- A proxy that records what is done with what it stands for. That should be an expression. -/
  | proxy (recorded : Value) (mark : Nat)
  /-- An expression as a value of its own. -/
  | expr (e : Expr Value) (p : Position)
  /-- A record of an entity type: its record class and its entries in order. -/
  | record (typeName : String) (entries : List (String × Value))
  | typeRef (t : TypeRef)
  /-- The description of a field: the place of its type and its own place there. -/
  | fieldRef (type index : Nat)
  | schema
  /-- What a missing variable leaves behind inside a list or an object. -/
  | undefined
  /-- A value of which only its class is known. -/
  | foreign (type : HostType) (mark : Nat)
  deriving Inhabited

/-- What the value of a lambda keeps: the lambda, and the scope it was evaluated in. -/
structure Closure where
  params : List Param
  body : Expr Value
  scope : Scope Value

/-- Parameters are found by name before further arguments. -/
abbrev Env := List (String × Value)

namespace Value

/-- A double that was just computed. -/
def ofFloat (x : Float) : Value := float x 0

/-- A decimal number that was just computed. -/
def ofDecimalFloat (d : DecimalFloat) : Value := decimal d 0

/-- A complex number that was just computed. -/
def ofComplexFloat (z : ComplexFloat) : Value := complex z 0

/-- An ordered dictionary that was just made. -/
def ofEntries (es : List (Value × Value)) : Value := orderedDict es 0

/-- A proxy that was just recorded. -/
def ofRecorded (e : Expr Value) : Value := proxy (expr e .loose) 0

/-- An expression that was just made. -/
def ofTree (e : Expr Value) : Value := expr e .loose

/-- A value of which only its class is known, as it was just made. -/
def ofClass (b : Builtin) : Value := foreign (.builtin b) 0

mutual

/-- A value as one that is computed anew: nothing in it is an object of its own yet. -/
def renewed : Value → Value
  | float x _ => float x 0
  | decimal d _ => decimal d 0
  | complex z _ => complex z 0
  | orderedDict es _ => orderedDict (renewedEntries es) 0
  | list vs => list (renewedList vs)
  | tuple vs => tuple (renewedList vs)
  | dict es => dict (renewedEntries es)
  | v => v

/-- Several values as ones that are computed anew. -/
def renewedList : List Value → List Value
  | [] => []
  | v :: vs => v.renewed :: renewedList vs

/-- Entries as ones that are computed anew. -/
def renewedEntries : List (Value × Value) → List (Value × Value)
  | [] => []
  | (k, v) :: es => (k.renewed, v.renewed) :: renewedEntries es

end

/-- A truth value as a number, and a number as itself. -/
def asInt? : Value → Option Int
  | bool b => some (if b then 1 else 0)
  | int n => some n
  | _ => Option.none

/-- Whether a value is the missing one. -/
def isNone : Value → Bool
  | none => true
  | _ => false

/-- A text. -/
def text? : Value → Option String
  | str s => some s
  | _ => Option.none

end Value

end EntityGraph
