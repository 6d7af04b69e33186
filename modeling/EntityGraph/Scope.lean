import EntityGraph.Expr.Basic

/-!
# Scopes

A scope is a chain of bindings of parameters to values, the innermost first. An inner binding of a
parameter hides the outer ones. Binding makes a longer chain and leaves the old one as it is.
-/

namespace EntityGraph

/-- A chain of bindings, the innermost first. -/
inductive Scope (V : Type) where
  | empty
  | bind (p : Param) (value : V) (tail : Scope V)

namespace Scope

variable {V : Type}

/-- The number of bindings in a scope. -/
def depth : Scope V → Nat
  | empty => 0
  | bind _ _ tail => tail.depth + 1

/-- The value of the innermost binding of a parameter. -/
def lookup? (p : Param) : Scope V → Option V
  | empty => none
  | bind q v tail => if p == q then some v else tail.lookup? p

/-- Binds parameters to the values at the same places, the first one outermost. Parameters or
values without a partner are left out. -/
def bindList (s : Scope V) : List Param → List V → Scope V
  | p :: ps, v :: vs => (bind p v s).bindList ps vs
  | _, _ => s

/-- Binds parameters to the values at the same places, which must be as many. -/
def bindAll? (s : Scope V) (ps : List Param) (vs : List V) : Option (Scope V) :=
  if ps.length == vs.length then some (s.bindList ps vs) else none

/-- The scope around the innermost binding. -/
def tail? : Scope V → Option (Scope V)
  | empty => none
  | bind _ _ tail => some tail

/-- The bindings of a scope, the innermost first. -/
def toList : Scope V → List (Param × V)
  | empty => []
  | bind p v tail => (p, v) :: tail.toList

@[simp] theorem length_toList (s : Scope V) : s.toList.length = s.depth := by
  induction s with
  | empty => rfl
  | bind p v tail ih => simp [toList, depth, ih]

/-- A look-up is a look-up in the list of bindings. -/
theorem lookup?_eq (p : Param) (s : Scope V) : s.lookup? p = s.toList.lookup p := by
  induction s with
  | empty => rfl
  | bind q v tail ih =>
    simp only [lookup?, toList, List.lookup_cons, ih]
    cases h : p == q <;> simp

end Scope

end EntityGraph
