import EntityGraph.Expr.Basic

/-!
# Drafts of expressions

A draft is the description of an expression before its nodes were checked. Names and operators may
be any value, and a plain value may stand where an expression, or a group of expressions, belongs.
-/

namespace EntityGraph

mutual

/-- An expression that has not been checked. -/
inductive Draft (V : Type) where
  /-- An existing parameter. -/
  | param (p : Param)
  /-- A new parameter with a name. -/
  | newParam (name : V)
  | lit (value : V)
  | null
  /-- A literal that holds an expression. -/
  | litTree (tree : Draft V)
  /-- A plain value in the place of an expression. -/
  | plain (value : V)
  | member (target : Draft V) (name : V)
  | item (target key : Draft V)
  | method (target : Draft V) (name : V) (args : Drafts V)
  | func (function : Draft V) (args : Drafts V)
  | unary (op : V) (inner : Draft V)
  | binary (op : V) (left right : Draft V)
  | cond (test yes no : Draft V)
  | lambda (params : Drafts V) (body : Draft V)
  | invoke (function : Draft V) (args : Drafts V)
  | seq (op : V) (source : Draft V) (args : Drafts V)
  | record (type : V) (fields : DraftFields V)

/-- A group of expressions that have not been checked. -/
inductive Drafts (V : Type) where
  /-- A plain value in the place of the group. -/
  | plain (value : V)
  | nil
  | cons (head : Draft V) (tail : Drafts V)

/-- The members of a record that have not been checked. -/
inductive DraftFields (V : Type) where
  /-- A plain value in the place of the members. -/
  | plain (value : V)
  | nil
  | cons (name : V) (head : Draft V) (tail : DraftFields V)

end

end EntityGraph
