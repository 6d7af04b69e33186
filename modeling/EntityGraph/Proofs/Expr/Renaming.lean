import EntityGraph.Expr.Traverse

/-!
# Renaming parameters

Putting parameters in the place of others is a renaming. Only what is put in the place of a
parameter matters, and putting each parameter in its own place changes nothing.
-/

namespace EntityGraph

namespace Expr

variable {V : Type}

/-- The expression with every use of a parameter renamed. Declarations stay as they are. -/
def rename (ρ : Param → Param) (e : Expr V) : Expr V := e.substitute fun p => some (.param (ρ p))

/-- Several expressions with every use of a parameter renamed. -/
def renameList (ρ : Param → Param) (es : List (Expr V)) : List (Expr V) :=
  substituteList (fun p => some (.param (ρ p))) es

/-- The members of a record with every use of a parameter renamed. -/
def renameFields (ρ : Param → Param) (fs : List (V × Expr V)) : List (V × Expr V) :=
  substituteFields (fun p => some (.param (ρ p))) fs

mutual

theorem substitute_congr {r r' : Param → Option (Expr V)}
    (h : ∀ p, (r p).getD (param p) = (r' p).getD (param p)) :
    ∀ e : Expr V, e.substitute r = e.substitute r'
  | param p => h p
  | lit _ => rfl
  | null => rfl
  | member t n => by rw [substitute, substitute, substitute_congr h t]
  | item t k => by rw [substitute, substitute, substitute_congr h t, substitute_congr h k]
  | method t n as => by
    rw [substitute, substitute, substitute_congr h t, substituteList_congr h as]
  | func g as => by rw [substitute, substitute, substitute_congr h g, substituteList_congr h as]
  | unary op e => by rw [substitute, substitute, substitute_congr h e]
  | binary op a b => by rw [substitute, substitute, substitute_congr h a, substitute_congr h b]
  | cond p y n => by
    rw [substitute, substitute, substitute_congr h p, substitute_congr h y, substitute_congr h n]
  | lambda ps b => by rw [substitute, substitute, substitute_congr h b]
  | invoke g as => by rw [substitute, substitute, substitute_congr h g, substituteList_congr h as]
  | seq op s as => by rw [substitute, substitute, substitute_congr h s, substituteList_congr h as]
  | record t fs => by rw [substitute, substitute, substituteFields_congr h fs]

theorem substituteList_congr {r r' : Param → Option (Expr V)}
    (h : ∀ p, (r p).getD (param p) = (r' p).getD (param p)) :
    ∀ es : List (Expr V), substituteList r es = substituteList r' es
  | [] => rfl
  | e :: es => by
    rw [substituteList, substituteList, substitute_congr h e, substituteList_congr h es]

theorem substituteFields_congr {r r' : Param → Option (Expr V)}
    (h : ∀ p, (r p).getD (param p) = (r' p).getD (param p)) :
    ∀ fs : List (V × Expr V), substituteFields r fs = substituteFields r' fs
  | [] => rfl
  | (_, e) :: fs => by
    rw [substituteFields, substituteFields, substitute_congr h e, substituteFields_congr h fs]

end

mutual

theorem substitute_none : ∀ e : Expr V, e.substitute (fun _ => none) = e
  | param _ => rfl
  | lit _ => rfl
  | null => rfl
  | member t n => by rw [substitute, substitute_none t]
  | item t k => by rw [substitute, substitute_none t, substitute_none k]
  | method t n as => by rw [substitute, substitute_none t, substituteList_none as]
  | func g as => by rw [substitute, substitute_none g, substituteList_none as]
  | unary op e => by rw [substitute, substitute_none e]
  | binary op a b => by rw [substitute, substitute_none a, substitute_none b]
  | cond p y n => by rw [substitute, substitute_none p, substitute_none y, substitute_none n]
  | lambda ps b => by rw [substitute, substitute_none b]
  | invoke g as => by rw [substitute, substitute_none g, substituteList_none as]
  | seq op s as => by rw [substitute, substitute_none s, substituteList_none as]
  | record t fs => by rw [substitute, substituteFields_none fs]

theorem substituteList_none : ∀ es : List (Expr V), substituteList (fun _ => none) es = es
  | [] => rfl
  | e :: es => by rw [substituteList, substitute_none e, substituteList_none es]

theorem substituteFields_none :
    ∀ fs : List (V × Expr V), substituteFields (fun _ => none) fs = fs
  | [] => rfl
  | (_, e) :: fs => by rw [substituteFields, substitute_none e, substituteFields_none fs]

end

section

variable (ρ : Param → Param)

@[simp] theorem rename_param (p : Param) : (param p : Expr V).rename ρ = param (ρ p) := rfl

@[simp] theorem rename_lit (v : V) : (lit v).rename ρ = lit v := rfl

@[simp] theorem rename_null : (null : Expr V).rename ρ = null := rfl

@[simp] theorem rename_member (t : Expr V) (n : String) :
    (member t n).rename ρ = member (t.rename ρ) n := rfl

@[simp] theorem rename_item (t k : Expr V) :
    (item t k).rename ρ = item (t.rename ρ) (k.rename ρ) := rfl

@[simp] theorem rename_method (t : Expr V) (n : String) (as : List (Expr V)) :
    (method t n as).rename ρ = method (t.rename ρ) n (renameList ρ as) := rfl

@[simp] theorem rename_func (g : Expr V) (as : List (Expr V)) :
    (func g as).rename ρ = func (g.rename ρ) (renameList ρ as) := rfl

@[simp] theorem rename_unary (op : UnaryOp) (e : Expr V) :
    (unary op e).rename ρ = unary op (e.rename ρ) := rfl

@[simp] theorem rename_binary (op : BinaryOp) (a b : Expr V) :
    (binary op a b).rename ρ = binary op (a.rename ρ) (b.rename ρ) := rfl

@[simp] theorem rename_cond (p y n : Expr V) :
    (cond p y n).rename ρ = cond (p.rename ρ) (y.rename ρ) (n.rename ρ) := rfl

@[simp] theorem rename_lambda (ps : List Param) (b : Expr V) :
    (lambda ps b).rename ρ = lambda ps (b.rename ρ) := rfl

@[simp] theorem rename_invoke (g : Expr V) (as : List (Expr V)) :
    (invoke g as).rename ρ = invoke (g.rename ρ) (renameList ρ as) := rfl

@[simp] theorem rename_seq (op : SeqOp) (e : Expr V) (as : List (Expr V)) :
    (seq op e as).rename ρ = seq op (e.rename ρ) (renameList ρ as) := rfl

@[simp] theorem rename_record (t : V) (fs : List (V × Expr V)) :
    (record t fs).rename ρ = record t (renameFields ρ fs) := rfl

@[simp] theorem renameList_cons (e : Expr V) (es : List (Expr V)) :
    renameList ρ (e :: es) = e.rename ρ :: renameList ρ es := rfl

@[simp] theorem renameFields_cons (n : V) (e : Expr V) (fs : List (V × Expr V)) :
    renameFields ρ ((n, e) :: fs) = (n, e.rename ρ) :: renameFields ρ fs := rfl

theorem renameList_eq_map (es : List (Expr V)) : renameList ρ es = es.map (rename ρ) := by
  induction es with
  | nil => rfl
  | cons e es ih => rw [renameList_cons, ih, List.map_cons]

/-- Whether an expression is a lambda does not depend on names. -/
@[simp] theorem isLambdaOf_rename (arity : Nat) (e : Expr V) :
    (e.rename ρ).isLambdaOf arity = e.isLambdaOf arity := by
  cases e <;> rfl

theorem find?_renameList {f : Expr V → Bool} (h : ∀ e, f (e.rename ρ) = f e)
    (es : List (Expr V)) : (renameList ρ es).find? f = (es.find? f).map (rename ρ) := by
  have same : f ∘ rename ρ = f := funext h
  rw [renameList_eq_map, List.find?_map, same]

end

/-- Renaming nothing gives the expression itself. -/
@[simp] theorem rename_id (e : Expr V) : e.rename id = e := by
  have nothing : ∀ p, (some (param (id p)) : Option (Expr V)).getD (param p)
      = (none : Option (Expr V)).getD (param p) := fun _ => rfl
  rw [rename, substitute_congr nothing, substitute_none]

/-- Putting one parameter in the place of another is a renaming. -/
theorem substitute_eq_rename (p q : Param) (e : Expr V) :
    e.substitute (fun x => if x == p then some (param q) else none)
      = e.rename fun x => if x = p then q else x := by
  refine substitute_congr (fun x => ?_) e
  by_cases same : x = p <;> simp [same]

end Expr

end EntityGraph
