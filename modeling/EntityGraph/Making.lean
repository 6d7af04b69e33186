import EntityGraph.Fault
import EntityGraph.World

/-!
# Computations that make and assign

Some computations make something that is different from everything made before: a parameter, an
object, a function, an undefined number. Each takes a number from a supply. Computations also assign
to attributes of objects. What they made and assigned stays, even if they fail.
-/

namespace EntityGraph

/-- What computations leave behind: the numbers they used up, the objects they made or assigned to,
and what the values of lambdas keep. -/
structure Trail where
  /-- The greatest number that has been used. -/
  supply : Nat
  memory : Memory
  closures : Closures

/-- A world with what a trail leaves behind. -/
def World.after (w : World) (t : Trail) : World := { w with memory := t.memory }

/-- Computations that may make something new and assign to attributes. -/
abbrev Making := ExceptT Fault (StateM Trail)

/-- What calling a value gives. -/
abbrev Calling := Value → List Value → Making Value

namespace Making

variable {α : Type}

/-- The result of a computation and what it leaves behind, after so much was left behind before. -/
def runFrom (x : Making α) (t : Trail) : Outcome α × Trail := (x.run).run t

/-- A number that has not been used before. -/
def newNumber : Making Nat := do
  let t ← get
  set { t with supply := t.supply + 1 }
  return t.supply + 1

/-- Leaves out all numbers up to this one. -/
def passOver (number : Nat) : Making Unit :=
  modify fun t => { t with supply := max t.supply number }

/-- A world as it is now. -/
def now (w : World) : Making World := do return w.after (← get)

/-- Makes an object, or changes one. -/
def put (r : Ref) (o : ObjectDecl) : Making Unit :=
  modify fun t => { t with memory := t.memory.insert r o }

/-- The value of a lambda that is evaluated now. -/
def newClosure (c : Closure) : Making Value := do
  let n ← newNumber
  modify fun t => { t with closures := (n, c) :: t.closures }
  return .closure n

/-- An object that is made now. -/
def newObject (type : HostType) (attributes : List (String × Value)) : Making Value := do
  let r := Ref.made (← newNumber)
  put r ⟨type, attributes⟩
  return .object r

end Making

/-- A parameter that is made now. -/
def newParam (name : String) : Making Param := do return ⟨← Making.newNumber, name⟩

namespace Value

/-- Whether a value is an expression that is not yet an object of its own. -/
def isLoose : Value → Bool
  | expr _ p => p.root == 0
  | _ => false

/-- An expression as one that was made with a number. -/
def rooted (number : Nat) : Value → Value
  | expr e _ => expr e ⟨number, []⟩
  | v => v

/-- Whether a value by itself, its elements apart, lacks a mark of its own. -/
def isUnmarked : Value → Bool
  | float x 0 => x.isNaN
  | decimal d 0 => d.isNaN
  | complex z 0 => z.isNaN
  | orderedDict _ 0 | proxy _ 0 => true
  | expr e p => (expr e p).isLoose
  | foreign t 0 => t == .builtin .object
  | _ => false

/-- A value with a mark. -/
def withMark (mark : Nat) : Value → Value
  | float x _ => float x mark
  | decimal d _ => decimal d mark
  | complex z _ => complex z mark
  | orderedDict es _ => orderedDict es mark
  | proxy v _ => proxy (if v.isLoose then v.rooted mark else v) mark
  | expr e p => (expr e p).rooted mark
  | foreign t _ => foreign t mark
  | v => v

mutual

/-- Whether a value, or something in it, lacks a mark of its own. -/
def isNew : Value → Bool
  | list vs | tuple vs => anyNew vs
  | dict es => anyNewEntry es
  | v => v.isUnmarked

/-- Whether one of several values is new. -/
def anyNew : List Value → Bool
  | [] => false
  | v :: vs => if v.isNew then true else anyNew vs

/-- Whether one of several entries is new. -/
def anyNewEntry : List (Value × Value) → Bool
  | [] => false
  | (k, v) :: es => if k.isNew then true else if v.isNew then true else anyNewEntry es

end

/-- A value that becomes an object of its own if it is new. -/
def owned (v : Value) : Making Value := do
  if v.isUnmarked then return v.withMark (← Making.newNumber) else return v

mutual

/-- A value in which everything new becomes an object of its own. -/
def settled : Value → Making Value
  | list vs => do return list (← settledList vs)
  | tuple vs => do return tuple (← settledList vs)
  | dict es => do return dict (← settledEntries es)
  | orderedDict es m => do owned (orderedDict (← settledEntries es) m)
  | v => v.owned

/-- Several values in which everything new becomes an object of its own. -/
def settledList : List Value → Making (List Value)
  | [] => return []
  | v :: vs => do return (← v.settled) :: (← settledList vs)

/-- Entries in which everything new becomes an object of its own. -/
def settledEntries : List (Value × Value) → Making (List (Value × Value))
  | [] => return []
  | (k, v) :: es => do return (← k.settled, ← v.settled) :: (← settledEntries es)

end

/-- An instance of the class of temperatures. -/
def makeCelsius (degrees : Value) : Making Value :=
  Making.newObject (.builtin .celsius) [(Builtin.degrees, degrees)]

/-- The value of a computation. Everything new in it becomes an object of its own. -/
def own (x : Outcome Value) : Making Value := do
  let v ← x
  if v.isNew then v.settled else return v

/-- A proxy of a value that is made now. -/
def makeProxy (v : Value) : Making Value := owned (proxy v 0)

end Value

end EntityGraph
