import EntityGraph.Proofs.Expr.Open
import EntityGraph.Proofs.Eval.Renaming

/-!
# Relations that evaluation keeps

An expression and the expression with some of its parameters replaced evaluate by the same steps, up
to the parameters that were replaced. A relation of computations that holds between each step and
itself, and that lasts when computations are put one after the other, therefore holds between the two
evaluations if it holds between that of each replacement and that of its parameter. This is shown
here for every such relation at once.

The values of lambdas are the exception, as they keep the one body or the other. A relation that
does not hold between them is kept by expressions whose lambdas are only applied.
-/

set_option linter.unusedSectionVars false

namespace EntityGraph

variable {α β : Type}

/-- Counts elements by the value of a lambda, which is none. -/
def Eval.sliceByClosure (w : World) (op : SeqOp) (vs : List Value) (c : Closure) :
    Making Value := do
  let count ← Making.newClosure c
  return ← slice (← Making.now w) op vs count

/-- A relation of computations that each step of an evaluation keeps. A fault may show the expression
that fails, and then shows it with the parameters replaced. -/
structure Congruence (h : Host) (r : Param → Option (Expr Value))
    (R : {α : Type} → Making α → Making α → Prop) : Prop where
  outcome : ∀ {α : Type} (x : Outcome α), R (liftM x : Making α) (liftM x)
  shown : ∀ (f : Expr Value → Fault) (e : Expr Value), (∀ e e', (f e).kind = (f e').kind) →
    R (MonadExcept.throw (f (e.substitute r)) : Making Value) (MonadExcept.throw (f e))
  bind : ∀ {α β : Type} {x y : Making α} {f g : α → Making β}, R x y → (∀ a, R (f a) (g a)) →
    R (x >>= f) (y >>= g)
  now : R (Making.now h.world) (Making.now h.world)
  own : ∀ x, R (Value.own x) (Value.own x)
  call : ∀ f vs, R (h.call f vs) (h.call f vs)
  count : ∀ op vs c c',
    R (Eval.sliceByClosure h.world op vs c) (Eval.sliceByClosure h.world op vs c')

namespace Congruence

variable {h : Host} {r : Param → Option (Expr Value)}
  {R : {α : Type} → Making α → Making α → Prop} (kept : Congruence h r R)

include kept

theorem pure (a : α) : R (Pure.pure a : Making α) (Pure.pure a) := kept.outcome (.ok a)

theorem ite {c : Prop} [Decidable c] {x y x' y' : Making α} (yes : c → R x x')
    (no : ¬c → R y y') : R (if c then x else y) (if c then x' else y') := by
  split
  · next h => exact yes h
  · next h => exact no h

theorem mapM {f g : α → Making β} (as : List α) (each : ∀ a ∈ as, R (f a) (g a)) :
    R (as.mapM f) (as.mapM g) := by
  induction as with
  | nil =>
    rw [List.mapM_nil, List.mapM_nil]
    exact kept.pure _
  | cons a as ih =>
    rw [List.mapM_cons, List.mapM_cons]
    refine kept.bind (each a (by simp)) fun b => ?_
    refine kept.bind (ih fun c hc => each c (by simp [hc])) fun bs => ?_
    exact kept.pure _

theorem keep {f g : Value → Making Value} (each : ∀ v, R (f v) (g v)) (vs : List Value) :
    R (Eval.keep h.world f vs) (Eval.keep h.world g vs) := by
  induction vs with
  | nil => exact kept.pure _
  | cons v vs ih =>
    refine kept.bind (each v) fun u => ?_
    refine kept.bind kept.now fun now => ?_
    refine kept.bind (kept.outcome _) fun holds => ?_
    exact kept.ite (fun _ => kept.bind ih fun _ => kept.pure _) fun _ => ih

theorem sorted {f g : Value → Making Value} (each : ∀ v, R (f v) (g v)) (down : Bool)
    (vs : List Value) : R (Eval.sorted h.world f down vs) (Eval.sorted h.world g down vs) := by
  refine kept.bind (kept.mapM _ fun v _ => kept.bind (each v) fun _ => kept.pure _) fun keyed => ?_
  refine kept.bind kept.now fun now => ?_
  exact kept.ite (fun _ => kept.bind (kept.outcome _) fun _ => kept.pure _)
    fun _ => kept.bind (kept.outcome _) fun _ => kept.pure _

/-- What is concluded from the elements depends on the expression in a fault only. -/
theorem conclude (op : SeqOp) (e : Expr Value) (vs : List Value) :
    R (liftM (Eval.conclude op (e.substitute r) vs) : Making Value)
      (liftM (Eval.conclude op e vs)) := by
  cases op with
  | first =>
    cases vs with
    | nil => exact kept.shown .noElement e fun _ _ => rfl
    | cons v vs => exact kept.outcome _
  | _ => exact kept.outcome _

theorem applyFunction (op : SeqOp) (e : Expr Value) {f g : Option (Value → Making Value)}
    (each : (f = none ∧ g = none)
      ∨ ∃ f' g', f = some f' ∧ g = some g' ∧ ∀ v, R (f' v) (g' v))
    (vs : List Value) :
    R (Eval.applyFunction h.world op (e.substitute r) f vs)
      (Eval.applyFunction h.world op e g vs) := by
  have concluded := kept.conclude op e
  rcases each with ⟨rfl, rfl⟩ | ⟨f, g, rfl, rfl, each⟩
  · cases op <;> exact concluded vs
  · cases op with
    | select => exact kept.bind (kept.mapM _ fun v _ => each v) fun _ => kept.pure _
    | orderBy => exact kept.sorted each false vs
    | orderByDescending => exact kept.sorted each true vs
    | _ => exact kept.bind (kept.keep each vs) fun vs => concluded vs

end Congruence

/-! ## Scopes -/

/-- Whether parameters have the values in one scope that they have in another. -/
def Scope.Agree (ps : List Param) (s s' : Scope Value) : Prop :=
  ∀ p ∈ ps, s.lookup? p = s'.lookup? p

/-- Whether an expression with some of its open parameters replaced, in the one scope, may be held
against the expression itself, in the other: parameters that stay have one value in both, and each
replacement is related to its parameter, from everywhere that has the values of what it leaves
open. -/
def Replaces (h : Host) (R : {α : Type} → Making α → Making α → Prop)
    (r : Param → Option (Expr Value)) (ps : List Param) (s s' : Scope Value) : Prop :=
  ∀ p ∈ ps, (r p = none → s.lookup? p = s'.lookup? p)
    ∧ ∀ e, r p = some e → ∀ u, Scope.Agree e.openParams u s →
      R (e.eval h u) ((Expr.param p).eval h s')

section

variable {h : Host} {R : {α : Type} → Making α → Making α → Prop} {r : Param → Option (Expr Value)}

theorem Replaces.mono {ps qs : List Param} {s s' : Scope Value} (fits : Replaces h R r ps s s')
    (sub : qs ⊆ ps) : Replaces h R r qs s s' :=
  fun p hp => fits p (sub hp)

/-- What fits a lambda fits its body, once its parameters are bound. -/
theorem Replaces.bindList {ps : List Param} {b : Expr Value} {s s' : Scope Value}
    (fits : Replaces h R r (Expr.lambda ps b).openParams s s')
    (uncaught : Expr.Uncaught r [.lambda ps b]) {vs : List Value} (len : ps.length = vs.length) :
    Replaces h R r b.openParams (s.bindList ps vs) (s'.bindList ps vs) := by
  intro p hp
  by_cases bound : p ∈ ps
  · refine ⟨fun _ => Scope.lookup?_bindList_of_mem bound s s' len, fun e he => ?_⟩
    exact absurd bound (uncaught ps b (by simp) p hp e he).1
  · obtain ⟨same, replaced⟩ := fits p (Expr.mem_openParams_lambda.2 ⟨hp, bound⟩)
    refine ⟨fun stays => ?_, fun e he u hu => ?_⟩
    · rw [Scope.lookup?_bindList_of_notMem bound, Scope.lookup?_bindList_of_notMem bound, same stays]
    · have outer : Scope.Agree e.openParams u s := fun q hq => by
        rw [hu q hq, Scope.lookup?_bindList_of_notMem ((uncaught ps b (by simp) p hp e he).2 q hq)]
      have value : (Expr.param p).eval h (s'.bindList ps vs) = (Expr.param p).eval h s' := by
        rw [Expr.eval, Expr.eval, Scope.lookup, Scope.lookup,
          Scope.lookup?_bindList_of_notMem bound]
      rw [value]
      exact replaced e he u outer

/-- Binding the parameters of a lambda is refused alike, and else leaves what fits its body. -/
theorem Replaces.bindAll (kept : Congruence h r R) {ps : List Param} {b : Expr Value}
    {s s' : Scope Value} (fits : Replaces h R r (Expr.lambda ps b).openParams s s')
    (uncaught : Expr.Uncaught r [.lambda ps b]) (vs : List Value)
    {f g : Scope Value → Making Value}
    (rest : ∀ u u', Replaces h R r b.openParams u u' → R (f u) (g u')) :
    R ((liftM (s.bindAll ps vs) : Making _) >>= f)
      ((liftM (s'.bindAll ps vs) : Making _) >>= g) := by
  unfold Scope.bindAll Scope.bindAll?
  by_cases len : ps.length = vs.length
  · simp only [len, beq_self_eq_true, if_true]
    exact rest _ _ (fits.bindList uncaught len)
  · simp only [beq_iff_eq, len, if_false]
    exact kept.outcome _

end

/-! ## Evaluations -/

/-- Whether a relation holds between the values of any two lambdas. -/
def RelatesClosures (R : {α : Type} → Making α → Making α → Prop) : Prop :=
  ∀ c c', R (Making.newClosure c) (Making.newClosure c')

namespace Congruence

variable {h : Host} {r : Param → Option (Expr Value)}
  {R : {α : Type} → Making α → Making α → Prop} (kept : Congruence h r R)

include kept

/-- An operator keeps the relation between its sides. The right one of a connective may be left
out, but then on both sides. -/
theorem binary (op : BinaryOp) {a a' b b' : Expr Value} {s s' : Scope Value}
    (left : R (a.eval h s) (a'.eval h s')) (right : R (b.eval h s) (b'.eval h s')) :
    R ((Expr.binary op a b).eval h s) ((Expr.binary op a' b').eval h s') := by
  refine kept.bind left fun v => ?_
  cases op with
  | and =>
    refine kept.bind kept.now fun now => ?_
    refine kept.bind (kept.outcome _) fun holds => ?_
    refine kept.ite (fun _ => ?_) fun _ => kept.pure _
    refine kept.bind right fun u => ?_
    exact kept.bind kept.now fun now => kept.outcome _
  | or =>
    refine kept.bind kept.now fun now => ?_
    refine kept.bind (kept.outcome _) fun holds => ?_
    refine kept.ite (fun _ => kept.pure _) fun _ => ?_
    refine kept.bind right fun u => ?_
    exact kept.bind kept.now fun now => kept.outcome _
  | _ =>
    refine kept.bind right fun u => ?_
    exact kept.bind kept.now fun now => kept.own _

open EntityGraph.Expr

/-- An operation on a sequence keeps the relation between its sources, between what a function makes
of each element, and between counts. -/
theorem sequence (op : SeqOp) (src : Expr Value) (as : List (Expr Value)) {s s' : Scope Value}
    (functions : op.takesFunction = true → ∀ e ∈ as, e.isLambdaOf 1)
    (source : R ((src.substitute r).eval h s) (src.eval h s'))
    (each : ∀ x, (∀ e ∈ as, e.isLambdaOf 1) →
      R (applyFirst h (substituteList r as) x s) (applyFirst h as x s'))
    (slices : ∀ vs, R
      (do
        let count ← evalFirst h (substituteList r as) s
        return ← Eval.slice (← Making.now h.world) op vs count)
      (do
        let count ← evalFirst h as s'
        return ← Eval.slice (← Making.now h.world) op vs count)) :
    R (((Expr.seq op src as).substitute r).eval h s) ((Expr.seq op src as).eval h s') := by
  refine kept.bind source fun v => ?_
  refine kept.ite (fun _ => ?_) fun _ => ?_
  · refine kept.ite (fun _ => kept.pure _) fun _ => ?_
    exact kept.shown (.missingSequence op) (seq op src as) fun _ _ => rfl
  · refine kept.bind kept.now fun now => ?_
    refine kept.bind (kept.outcome _) fun vs => ?_
    refine kept.ite (fun takes => ?_) fun _ => slices vs
    have lambdas := functions takes
    have found : as.find? (!·.isLambdaOf 1) = none := by simpa using lambdas
    rw [find?_substituteList r lambdas, found]
    refine kept.applyFunction op (seq op src as) ?_ vs
    cases as with
    | nil => exact .inl ⟨rfl, rfl⟩
    | cons a as => exact .inr ⟨_, _, rfl, rfl, fun x => each x lambdas⟩

mutual

/-- Replacing parameters keeps the relation. -/
theorem eval (e : Expr Value) {s s' : Scope Value} (formed : e.isWellFormed)
    (values : RelatesClosures R ∨ e.isFirstOrder false) (uncaught : Uncaught r e.nodes)
    (fits : Replaces h R r e.openParams s s') :
    R ((e.substitute r).eval h s) (e.eval h s') := by
  cases e with
  | param p =>
    obtain ⟨same, replaced⟩ := fits p (by simp [openParams])
    cases found : r p with
    | some e =>
      rw [substitute, found]
      exact replaced e found s fun _ _ => rfl
    | none =>
      rw [substitute, found, Option.getD_none, Expr.eval, Expr.eval, Scope.lookup, Scope.lookup,
        same found]
      exact kept.outcome _
  | lit v => exact kept.pure _
  | null => exact kept.pure _
  | member t n =>
    simp only [isWellFormed, isFirstOrder, nodes, Bool.and_eq_true] at formed values uncaught
    refine kept.bind (eval t formed.2 values (uncaught.mono (by simp)) fits) fun v => ?_
    refine kept.ite (fun _ => kept.pure _) fun _ => ?_
    exact kept.bind kept.now fun now => kept.own _
  | item t k =>
    simp only [isWellFormed, isFirstOrder, nodes, Bool.and_eq_true] at formed values uncaught
    refine kept.bind (eval t formed.1 (values.imp_right And.left) (uncaught.mono (by simp))
      (fits.mono (by simp [openParams]))) fun v => ?_
    refine kept.ite (fun _ => kept.pure _) fun _ => ?_
    refine kept.bind (eval k formed.2 (values.imp_right And.right) (uncaught.mono (by simp))
      (fits.mono (by simp [openParams]))) fun k => ?_
    exact kept.bind kept.now fun now => kept.own _
  | method t n as =>
    simp only [isWellFormed, isFirstOrder, nodes, Bool.and_eq_true] at formed values uncaught
    refine kept.bind (eval t formed.1.2 (values.imp_right And.left) (uncaught.mono (by simp))
      (fits.mono (by simp [openParams]))) fun v => ?_
    refine kept.ite (fun _ => kept.pure _) fun _ => ?_
    refine kept.bind (evalList as formed.2 (values.imp_right And.right) (uncaught.mono (by simp))
      (fits.mono (by simp [openParams]))) fun vs => ?_
    refine kept.bind kept.now fun now => ?_
    exact kept.bind (kept.own _) fun f => kept.call f vs
  | func f as =>
    simp only [isWellFormed, isFirstOrder, nodes, Bool.and_eq_true] at formed values uncaught
    refine kept.bind (eval f formed.1 (values.imp_right And.left) (uncaught.mono (by simp))
      (fits.mono (by simp [openParams]))) fun f => ?_
    refine kept.bind (evalList as formed.2 (values.imp_right And.right) (uncaught.mono (by simp))
      (fits.mono (by simp [openParams]))) fun vs => ?_
    exact kept.call f vs
  | unary op e =>
    simp only [isWellFormed, isFirstOrder, nodes] at formed values uncaught
    refine kept.bind (eval e formed values (uncaught.mono (by simp)) fits) fun v => ?_
    exact kept.bind kept.now fun now => kept.own _
  | binary op l r =>
    simp only [isWellFormed, isFirstOrder, nodes, Bool.and_eq_true] at formed values uncaught
    refine kept.binary op ?_ ?_
    · exact eval l formed.1 (values.imp_right And.left) (uncaught.mono (by simp))
        (fits.mono (by simp [openParams]))
    · exact eval r formed.2 (values.imp_right And.right) (uncaught.mono (by simp))
        (fits.mono (by simp [openParams]))
  | cond p y n =>
    simp only [isWellFormed, isFirstOrder, nodes, Bool.and_eq_true] at formed values uncaught
    refine kept.bind (eval p formed.1.1 (values.imp_right fun h => h.1.1)
      (uncaught.mono (by simp)) (fits.mono (by simp [openParams]))) fun v => ?_
    refine kept.bind kept.now fun now => ?_
    refine kept.bind (kept.outcome _) fun holds => ?_
    refine kept.ite (fun _ => ?_) fun _ => ?_
    · exact eval y formed.1.2 (values.imp_right fun h => h.1.2) (uncaught.mono (by simp))
        (fits.mono (by simp [openParams]))
    · exact eval n formed.2 (values.imp_right And.right) (uncaught.mono fun e he => by simp [he])
        (fits.mono fun p hp => by simp [openParams, hp])
  | lambda ps b =>
    -- The two values keep different bodies, so nothing that was shown of the bodies helps.
    rcases values with related | applied
    · exact related _ _
    · simp [isFirstOrder] at applied
  | invoke f as =>
    simp only [isWellFormed, isFirstOrder, nodes, Bool.and_eq_true] at formed values uncaught
    refine kept.bind (evalList as formed.2 (values.imp_right And.right) (uncaught.mono (by simp))
      (fits.mono (by simp [openParams]))) fun vs => ?_
    exact applyTo f vs formed.1.1 formed.1.2 (values.imp_right And.left)
      (uncaught.mono (by simp)) (fits.mono (by simp [openParams]))
  | seq op src as =>
    simp only [isWellFormed, isFirstOrder, nodes, Bool.and_eq_true] at formed values uncaught
    obtain ⟨⟨⟨-, functions⟩, source⟩, arguments⟩ := formed
    have caught : Uncaught r (nodesList as) := uncaught.mono (by simp)
    have scope : Replaces h R r (openParamsList as) s s' := fits.mono (by simp [openParams])
    have lambdas (takes : op.takesFunction = true) : ∀ e ∈ as, e.isLambdaOf 1 := by
      simpa [takes] using functions
    refine kept.sequence op src as lambdas ?_ (fun x each => ?_) fun vs => ?_
    · exact eval src source (values.imp_right And.left) (uncaught.mono (by simp))
        (fits.mono (by simp [openParams]))
    · exact applyFirst as x each arguments (values.imp_right And.right) caught scope
    · exact sliceFirst op vs as arguments (values.imp_right And.right) caught scope
  | record t fs =>
    simp only [isWellFormed, isFirstOrder, nodes] at formed values uncaught
    refine kept.bind (evalFields fs formed values (uncaught.mono (by simp)) fits) fun vs => ?_
    exact kept.call t [.list vs]

theorem evalList (es : List (Expr Value)) {s s' : Scope Value} (formed : areWellFormed es)
    (values : RelatesClosures R ∨ areFirstOrder false es) (uncaught : Uncaught r (nodesList es))
    (fits : Replaces h R r (openParamsList es) s s') :
    R (Expr.evalList h (substituteList r es) s) (Expr.evalList h es s') := by
  cases es with
  | nil => exact kept.pure _
  | cons e es =>
    simp only [areWellFormed, areFirstOrder, nodesList, Bool.and_eq_true] at formed values uncaught
    refine kept.bind (eval e formed.1 (values.imp_right And.left) (uncaught.mono (by simp))
      (fits.mono (by simp [openParamsList]))) fun v => ?_
    refine kept.bind (evalList es formed.2 (values.imp_right And.right) (uncaught.mono (by simp))
      (fits.mono (by simp [openParamsList]))) fun vs => ?_
    exact kept.pure _

theorem evalFields (fs : List (Value × Expr Value)) {s s' : Scope Value}
    (formed : fieldsWellFormed fs) (values : RelatesClosures R ∨ fieldsFirstOrder fs)
    (uncaught : Uncaught r (nodesFields fs)) (fits : Replaces h R r (openParamsFields fs) s s') :
    R (Expr.evalFields h (substituteFields r fs) s) (Expr.evalFields h fs s') := by
  cases fs with
  | nil => exact kept.pure _
  | cons f fs =>
    obtain ⟨n, e⟩ := f
    simp only [fieldsWellFormed, fieldsFirstOrder, nodesFields, Bool.and_eq_true]
      at formed values uncaught
    refine kept.bind (eval e formed.1 (values.imp_right And.left) (uncaught.mono (by simp))
      (fits.mono (by simp [openParamsFields]))) fun v => ?_
    refine kept.bind (evalFields fs formed.2 (values.imp_right And.right)
      (uncaught.mono (by simp)) (fits.mono (by simp [openParamsFields]))) fun vs => ?_
    exact kept.pure _

/-- The count of an operation that takes or skips may be a lambda, which is refused. -/
theorem sliceFirst (op : SeqOp) (vs : List Value) (es : List (Expr Value)) {s s' : Scope Value}
    (formed : areWellFormed es) (values : RelatesClosures R ∨ areFirstOrder true es)
    (uncaught : Uncaught r (nodesList es)) (fits : Replaces h R r (openParamsList es) s s') :
    R
      (do
        let count ← Expr.evalFirst h (substituteList r es) s
        return ← Eval.slice (← Making.now h.world) op vs count)
      (do
        let count ← Expr.evalFirst h es s'
        return ← Eval.slice (← Making.now h.world) op vs count) := by
  have sliced : ∀ count : Value,
      R (do return ← Eval.slice (← Making.now h.world) op vs count)
        (do return ← Eval.slice (← Making.now h.world) op vs count) :=
    fun count => kept.bind kept.now fun now => kept.outcome _
  cases es with
  | nil => exact kept.bind (kept.pure _) sliced
  | cons e es =>
    simp only [areWellFormed, areFirstOrder, nodesList, Bool.and_eq_true] at formed values uncaught
    have place : Uncaught r e.nodes := uncaught.mono (by simp)
    have scope : Replaces h R r e.openParams s s' := fits.mono (by simp [openParamsList])
    cases e with
    | lambda ps b => exact kept.count op vs _ _
    | _ => exact kept.bind (eval _ formed.1 (values.imp_right And.left) place scope) sliced

theorem applyTo (f : Expr Value) (vs : List Value) {s s' : Scope Value} {n : Nat}
    (function : f.isLambdaOf n) (formed : f.isWellFormed)
    (values : RelatesClosures R ∨ f.isFirstOrder true) (uncaught : Uncaught r f.nodes)
    (fits : Replaces h R r f.openParams s s') :
    R ((f.substitute r).applyTo h vs s) (f.applyTo h vs s') := by
  cases f with
  | lambda ps b =>
    simp only [isWellFormed, isFirstOrder, nodes, Bool.and_eq_true, Bool.true_and]
      at formed values uncaught
    refine fits.bindAll kept (uncaught.mono (by simp)) vs fun u u' inner => ?_
    exact eval b formed.2 values (uncaught.mono (by simp)) inner
  | _ => cases function

theorem applyFirst (es : List (Expr Value)) (v : Value) {s s' : Scope Value}
    (functions : ∀ e ∈ es, e.isLambdaOf 1) (formed : areWellFormed es)
    (values : RelatesClosures R ∨ areFirstOrder true es)
    (uncaught : Uncaught r (nodesList es)) (fits : Replaces h R r (openParamsList es) s s') :
    R (Expr.applyFirst h (substituteList r es) v s) (Expr.applyFirst h es v s') := by
  cases es with
  | nil => exact kept.pure _
  | cons e es =>
    simp only [areWellFormed, areFirstOrder, nodesList, Bool.and_eq_true] at formed values uncaught
    exact applyTo e [v] (functions e (by simp)) formed.1 (values.imp_right And.left)
      (uncaught.mono (by simp))
      (fits.mono (by simp [openParamsList]))

end

end Congruence

end EntityGraph
