import EntityGraph.Expr.Draft

/-!
# Scripts

A script is what an application's own function does with its arguments: it reads variables, members
and items, calls, applies operators, and makes functions and lists of its own. The same script can
run on host values, or on recording proxies, which turn what is done with them into an expression.
-/

namespace EntityGraph

/-- The operators that a script can apply to two values. -/
inductive ScriptOp where
  | eq | ne | lt | le | gt | ge | and | or | add | sub | mul | div | mod
  deriving DecidableEq, Repr, Inhabited

/-- What a function of the application does. -/
inductive Script (V : Type) where
  | var (name : String)
  | lit (value : V)
  /-- A proxy of a literal. -/
  | const (value : V)
  | attr (target : Script V) (name : String)
  | item (target key : Script V)
  | call (function : Script V) (args : List (Script V))
  | bin (op : ScriptOp) (left right : Script V)
  | inv (inner : Script V)
  | neg (inner : Script V)
  /-- A function of its own, with named parameters and possibly a name for all further arguments. -/
  | fn (params : List String) (star : Option String) (body : Script V)
  /-- An expression that is built when the script gets there. -/
  | tree (draft : Draft V)
  | list (elements : List (Script V))
  | and (left right : Script V)
  | not (inner : Script V)
  | iter (inner : Script V)
  | len (inner : Script V)
  | isIn (element container : Script V)
  | setAttr (target : Script V) (name : String) (value : V)
  /-- The expression that a value stands for. -/
  | expression (inner : Script V)
  /-- The text of a value as messages show it. -/
  | shown (inner : Script V)

namespace ScriptOp

/-- The expression operator that records a script operator. -/
def recorded : ScriptOp → BinaryOp
  | eq => .eq
  | ne => .ne
  | lt => .lt
  | le => .le
  | gt => .gt
  | ge => .ge
  | and => .and
  | or => .or
  | add => .add
  | sub => .sub
  | mul => .mul
  | div => .div
  | mod => .mod

/-- How a script operator is written. -/
def symbol : ScriptOp → String
  | eq => "=="
  | ne => "!="
  | lt => "<"
  | le => "<="
  | gt => ">"
  | ge => ">="
  | and => "&"
  | or => "|"
  | add => "+"
  | sub => "-"
  | mul => "*"
  | div => "/"
  | mod => "%"

/-- All script operators. -/
def all : List ScriptOp := [eq, ne, lt, le, gt, ge, and, or, add, sub, mul, div, mod]

/-- The script operator that is written so. -/
def ofSymbol? (s : String) : Option ScriptOp :=
  all.find? fun op => op.symbol == s

/-- The comparison that holds with the sides exchanged; none for the other operators. -/
def exchanged? : ScriptOp → Option ScriptOp
  | eq => some eq
  | ne => some ne
  | lt => some gt
  | le => some ge
  | gt => some lt
  | ge => some le
  | _ => none

end ScriptOp

end EntityGraph
