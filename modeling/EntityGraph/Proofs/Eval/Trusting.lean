import EntityGraph.Eval.Evaluate
import EntityGraph.Proofs.Expr.Substitution

/-!
# Evaluating without looking

Before an operation on a sequence applies its argument to the elements, evaluating looks whether the
argument is a lambda of one parameter. An expression that is well formed needs no such look: the
evaluator of this module takes every argument for what it should be, and on well-formed expressions
it does the same. So what is well formed never gives the fault of that look, whatever the host does.
-/

set_option linter.unusedSectionVars false

namespace EntityGraph

namespace Trusting

mutual

/-- The value of an expression, where functions of elements are applied unseen. -/
def eval (h : Host) : Expr Value → Scope Value → Making Value
  | .param p, s => do return ← s.lookup p
  | .lit v, _ => return v
  | .null, _ => return .none
  | .member t n, s => do
    let v ← eval h t s
    if v.isNone then return .none else Value.own (Value.getAttr (← Making.now h.world) v n)
  | .item t k, s => do
    let v ← eval h t s
    if v.isNone then return .none
    else do
      let k ← eval h k s
      Value.own (Value.readItem (← Making.now h.world) v k)
  | .method t n as, s => do
    let v ← eval h t s
    if v.isNone then return .none
    else do
      let vs ← evalList h as s
      h.call (← Value.own (Value.getAttr (← Making.now h.world) v n)) vs
  | .func f as, s => do
    let g ← eval h f s
    let vs ← evalList h as s
    h.call g vs
  | .unary op e, s => do
    let v ← eval h e s
    Value.own (op.apply (← Making.now h.world) v)
  | .binary op l r, s => do
    let v ← eval h l s
    match op with
    | .and =>
      if ← Value.truth (← Making.now h.world) v then do
        let u ← eval h r s
        return ← BinaryOp.apply (← Making.now h.world) .and v u
      else return .bool false
    | .or =>
      if ← Value.truth (← Making.now h.world) v then return .bool true
      else do
        let u ← eval h r s
        return ← BinaryOp.apply (← Making.now h.world) .or v u
    | op => do
      let u ← eval h r s
      Value.own (op.apply (← Making.now h.world) v u)
  | .cond p y n, s => do
    let v ← eval h p s
    if ← Value.truth (← Making.now h.world) v then eval h y s else eval h n s
  | .lambda ps b, s => Making.newClosure ⟨ps, b, s⟩
  | .invoke f as, s => do
    let vs ← evalList h as s
    applyTo h f vs s
  | .seq op src as, s => do
    let v ← eval h src s
    if v.isNone then
      if op.passesMissing then return .none else throw (.missingSequence op (.seq op src as))
    else do
      let vs ← Value.elements (← Making.now h.world) v
      if op.takesFunction then
        Eval.applyFunction h.world op (.seq op src as)
          (if as.isEmpty then none else some fun x => applyFirst h as x s) vs
      else do
        let count ← evalFirst h as s
        return ← Eval.slice (← Making.now h.world) op vs count
  | .record t fs, s => do
    let vs ← evalFields h fs s
    h.call t [.list vs]

/-- The values of several expressions. -/
def evalList (h : Host) : List (Expr Value) → Scope Value → Making (List Value)
  | [], _ => return []
  | e :: es, s => do
    let v ← eval h e s
    return v :: (← evalList h es s)

/-- The pairs of names and values that a record is made of. -/
def evalFields (h : Host) : List (Value × Expr Value) → Scope Value → Making (List Value)
  | [], _ => return []
  | (n, e) :: fs, s => do
    let v ← eval h e s
    return .tuple [n, v] :: (← evalFields h fs s)

/-- The value of the first of several expressions. -/
def evalFirst (h : Host) : List (Expr Value) → Scope Value → Making Value
  | [], _ => return .none
  | e :: _, s => eval h e s

/-- The value of a lambda's body for its arguments; what is no lambda gives the missing value. -/
def applyTo (h : Host) : Expr Value → List Value → Scope Value → Making Value
  | .lambda ps b, vs, s => do eval h b (← s.bindAll ps vs)
  | _, _, _ => return .none

/-- The value of the first of several lambdas for one argument. -/
def applyFirst (h : Host) : List (Expr Value) → Value → Scope Value → Making Value
  | [], _, _ => return .none
  | e :: _, v, s => applyTo h e [v] s

end

end Trusting

namespace Expr

mutual

/-- A well-formed expression evaluates as it does unseen. -/
theorem eval_trusting (h : Host) (e : Expr Value) (s : Scope Value)
    (wellFormed : e.isWellFormed = true) : e.eval h s = Trusting.eval h e s := by
  cases e with
  | param p => rfl
  | lit v => rfl
  | null => rfl
  | member t n =>
    rw [isWellFormed, Bool.and_eq_true] at wellFormed
    rw [eval, Trusting.eval, eval_trusting h t s wellFormed.2]
  | item t k =>
    rw [isWellFormed, Bool.and_eq_true] at wellFormed
    rw [eval, Trusting.eval, eval_trusting h t s wellFormed.1, eval_trusting h k s wellFormed.2]
  | method t n as =>
    simp only [isWellFormed, Bool.and_eq_true] at wellFormed
    rw [eval, Trusting.eval, eval_trusting h t s wellFormed.1.2,
      evalList_trusting h as s wellFormed.2]
  | func f as =>
    rw [isWellFormed, Bool.and_eq_true] at wellFormed
    rw [eval, Trusting.eval, eval_trusting h f s wellFormed.1,
      evalList_trusting h as s wellFormed.2]
  | unary op e =>
    rw [isWellFormed] at wellFormed
    rw [eval, Trusting.eval, eval_trusting h e s wellFormed]
  | binary op l r =>
    rw [isWellFormed, Bool.and_eq_true] at wellFormed
    rewrite [eval, Trusting.eval, eval_trusting h l s wellFormed.1,
      eval_trusting h r s wellFormed.2]
    rfl
  | cond p y n =>
    simp only [isWellFormed, Bool.and_eq_true] at wellFormed
    rw [eval, Trusting.eval, eval_trusting h p s wellFormed.1.1,
      eval_trusting h y s wellFormed.1.2, eval_trusting h n s wellFormed.2]
  | lambda ps b => rfl
  | invoke f as =>
    simp only [isWellFormed, Bool.and_eq_true] at wellFormed
    obtain ⟨⟨lambda, function⟩, arguments⟩ := wellFormed
    rw [eval, Trusting.eval, evalList_trusting h as s arguments]
    have applied (vs : List Value) : applyTo h f vs s = Trusting.applyTo h f vs s :=
      applyTo_trusting h f vs s lambda function
    simp only [applied]
  | seq op src as =>
    simp only [isWellFormed, Bool.and_eq_true, Bool.or_eq_true, Bool.not_eq_true'] at wellFormed
    obtain ⟨⟨⟨_, functions⟩, source⟩, arguments⟩ := wellFormed
    rw [eval, Trusting.eval, eval_trusting h src s source]
    cases takes : op.takesFunction with
    | true =>
      have lambdas : as.all (isLambdaOf 1) = true := functions.resolve_left (by simp [takes])
      -- There is nothing for the look to find.
      have seen : as.find? (!·.isLambdaOf 1) = none := by
        rw [List.find?_eq_none]
        intro e he
        simp [List.all_eq_true.1 lambdas e he]
      have applied (x : Value) : applyFirst h as x s = Trusting.applyFirst h as x s :=
        applyFirst_trusting h as x s lambdas arguments
      simp only [seen, applied, if_true]
    | false =>
      simp only [evalFirst_trusting h as s arguments, Bool.false_eq_true, if_false]
  | record t fs =>
    rw [isWellFormed] at wellFormed
    rw [eval, Trusting.eval, evalFields_trusting h fs s wellFormed]

theorem evalList_trusting (h : Host) (es : List (Expr Value)) (s : Scope Value)
    (wellFormed : areWellFormed es = true) : evalList h es s = Trusting.evalList h es s := by
  cases es with
  | nil => rfl
  | cons e es =>
    rw [areWellFormed, Bool.and_eq_true] at wellFormed
    rw [evalList, Trusting.evalList, eval_trusting h e s wellFormed.1,
      evalList_trusting h es s wellFormed.2]

theorem evalFields_trusting (h : Host) (fs : List (Value × Expr Value)) (s : Scope Value)
    (wellFormed : fieldsWellFormed fs = true) :
    evalFields h fs s = Trusting.evalFields h fs s := by
  cases fs with
  | nil => rfl
  | cons f fs =>
    obtain ⟨n, e⟩ := f
    rw [fieldsWellFormed, Bool.and_eq_true] at wellFormed
    rw [evalFields, Trusting.evalFields, eval_trusting h e s wellFormed.1,
      evalFields_trusting h fs s wellFormed.2]

theorem evalFirst_trusting (h : Host) (es : List (Expr Value)) (s : Scope Value)
    (wellFormed : areWellFormed es = true) : evalFirst h es s = Trusting.evalFirst h es s := by
  cases es with
  | nil => rfl
  | cons e es =>
    rw [areWellFormed, Bool.and_eq_true] at wellFormed
    exact eval_trusting h e s wellFormed.1

theorem applyTo_trusting (h : Host) (f : Expr Value) (vs : List Value) (s : Scope Value) {n : Nat}
    (lambda : f.isLambdaOf n = true) (wellFormed : f.isWellFormed = true) :
    applyTo h f vs s = Trusting.applyTo h f vs s := by
  cases f with
  | lambda ps b =>
    rw [isWellFormed, Bool.and_eq_true] at wellFormed
    have body (s : Scope Value) : b.eval h s = Trusting.eval h b s :=
      eval_trusting h b s wellFormed.2
    simp only [applyTo, Trusting.applyTo, body]
  | _ => simp [isLambdaOf, lambdaParams?] at lambda

theorem applyFirst_trusting (h : Host) (es : List (Expr Value)) (v : Value) (s : Scope Value)
    (lambdas : es.all (isLambdaOf 1) = true) (wellFormed : areWellFormed es = true) :
    applyFirst h es v s = Trusting.applyFirst h es v s := by
  cases es with
  | nil => rfl
  | cons e es =>
    rw [areWellFormed, Bool.and_eq_true] at wellFormed
    rw [List.all_cons, Bool.and_eq_true] at lambdas
    exact applyTo_trusting h e [v] s lambdas.1 wellFormed.1

end

/-! ## Renamed uses of parameters -/

section

variable {r : Param → Option (Expr Value)}

theorem isLambdaOf_substitute (renames : ∀ p e, r p = some e → ∃ q, e = .param q) (n : Nat)
    (e : Expr Value) : (e.substitute r).isLambdaOf n = e.isLambdaOf n := by
  cases e with
  | param p =>
    rw [substitute]
    cases found : r p with
    | none => rfl
    | some e =>
      obtain ⟨q, rfl⟩ := renames p e found
      rfl
  | _ => rfl

/-- A parameter in the place of another leaves an expression as well formed as it was. -/
theorem isWellFormed_substitute (renames : ∀ p e, r p = some e → ∃ q, e = .param q)
    (e : Expr Value) : (e.substitute r).isWellFormed = e.isWellFormed := by
  induction e using parts_induction with
  | step e ih =>
    by_cases other : e.used? = none
    · have built : (e.substitute r).isBuilt = e.isBuilt := by
        cases e with
        | param => cases other
        | invoke g as =>
          simp [substitute, isBuilt, substituteList_eq_map, isLambdaOf_substitute renames]
        | seq op s as =>
          simp [substitute, isBuilt, substituteList_eq_map, Function.comp_def,
            isLambdaOf_substitute renames]
        | _ => rfl
      rw [Bool.eq_iff_iff, isWellFormed_iff, isWellFormed_iff, parts_substitute other,
        List.forall_mem_map, built]
      exact and_congr_right fun _ => forall₂_congr fun p hp => by rw [ih p hp]
    · obtain ⟨p, rfl⟩ := exists_param other
      rw [substitute]
      cases found : r p with
      | none => rfl
      | some e =>
        obtain ⟨q, rfl⟩ := renames p e found
        rfl

end

end Expr

end EntityGraph
