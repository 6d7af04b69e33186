import EntityGraph.Proofs.Eval.Filtering
import EntityGraph.Proofs.Eval.Renaming
import EntityGraph.Proofs.Host.Class

/-!
# The boolean connectives

Conjunction and disjunction evaluate their right operand only if the left one does not decide, and
then hand both values to the operator, which asks the left one again. The second answer could be
another one, as evaluating the right operand may run any function of an application. Where it does
not change what counts as true, both connectives are questions put one after the other, and then the
laws of a Boolean algebra are laws of such questions: they hold with all that the operands do on the
way, not only of the values.

The two connectives are one here. Each has a truth value that decides it, and they differ in nothing
else, so De Morgan's laws exchange the one for the other and the truth value for its opposite.

Filtering twice and filtering by a conjunction ask the same questions in another order. That they
agree needs more: the answers must not depend on the order.
-/

/-!
## Computations that always come out the same

A function of an application may answer differently each time it is called. Laws that move one
computation past another need those that do not: from every trail with a certain property such a
computation comes out in one and the same way, by success with one value or by failing, and the
property holds again where it succeeds. What the property is is left open. That an object has the
attributes that the functions read will often do, and that anything at all holds is enough for
functions that read nothing that changes.

The outcome is an `Option` here, and computations that come out so are put together as their
outcomes are.
-/

namespace EntityGraph

variable {α β : Type} {I : Trail → Prop}

/-- Whether a computation comes out in one way from every trail with a property, and keeps the
property if it succeeds. -/
structure Constant (I : Trail → Prop) (x : Making α) (o : Option α) : Prop where
  outcome : ∀ t, I t → (runOn x t).1.toOption = o
  keeps : ∀ t, I t → o.isSome = true → I (runOn x t).2

theorem Constant.ok {x : Making α} {a : α} (h : Constant I x (some a)) {t : Trail} (ht : I t) :
    ∃ u, runOn x t = (.ok a, u) ∧ I u := by
  have came := outcome_toOption.1 (h.outcome t ht)
  exact ⟨_, Prod.ext came rfl, h.keeps t ht rfl⟩

theorem constant_pure (a : α) : Constant I (pure a : Making α) (some a) :=
  ⟨fun _ _ => rfl, fun _ ht _ => ht⟩

theorem constant_bind {x : Making α} {f : α → Making β} {o : Option α} {g : α → Option β}
    (hx : Constant I x o) (hf : ∀ a, o = some a → Constant I (f a) (g a)) :
    Constant I (x >>= f) (o.bind g) := by
  have step : ∀ t, I t → (runOn (x >>= f) t).1.toOption = o.bind g
      ∧ ((o.bind g).isSome = true → I (runOn (x >>= f) t).2) := by
    intro t ht
    have came := hx.outcome t ht
    cases run : runOn x t with
    | mk r u =>
      rw [run] at came
      cases r with
      | error f =>
        cases came
        rw [runOn_bind_error run]
        exact ⟨rfl, nofun⟩
      | ok a =>
        cases came
        have hu : I u := by
          have kept := hx.keeps t ht rfl
          rwa [run] at kept
        rw [runOn_bind_ok run]
        exact ⟨(hf a rfl).outcome u hu, (hf a rfl).keeps u hu⟩
  exact ⟨fun t ht => (step t ht).1, fun t ht => (step t ht).2⟩

theorem constant_map {x : Making α} {o : Option α} (g : α → β) (hx : Constant I x o) :
    Constant I (g <$> x) (o.map g) := by
  rw [map_eq_pure_bind, Option.map_eq_bind]
  exact constant_bind hx fun a _ => constant_pure (g a)

/-- A computation that is alike to a constant one is constant, along the trails that are alike. -/
theorem Constant.alike {x y : Making α} {o : Option α} (h : Constant I x o) (same : Alike x y) :
    Constant (fun t => ∃ t', I t' ∧ t'.Alike t) y o := by
  have value (r : Outcome α) : (told r).toOption = r.toOption := by cases r <;> rfl
  refine ⟨fun t ⟨t', ht', near⟩ => ?_, fun t ⟨t', ht', near⟩ some => ?_⟩
  · rw [← h.outcome t' ht', ← value, ← value, (same t' t near).1]
  · exact ⟨_, h.keeps t' ht' some, (same t' t near).2⟩

namespace Eval

/-- Whether what a computation comes out with counts as true. -/
def passes (w : World) (x : Making Value) : Making Bool := do
  let v ← x
  return ← Value.truth (← Making.now w) v

theorem keep_cons (w : World) (test : Value → Making Value) (v : Value) (vs : List Value) :
    keep w test (v :: vs)
      = passes w (test v) >>= fun b =>
        if b then (v :: ·) <$> keep w test vs else keep w test vs := by
  simp only [keep, passes, bind_assoc, map_eq_pure_bind]

/-- The elements for which the answer is true, if there is an answer for each. -/
def answered (o : Value → Option Bool) : List Value → Option (List Value)
  | [] => some []
  | v :: vs => (o v).bind fun b => if b then (answered o vs).map (v :: ·) else answered o vs

/-- Elements that pass a test whose answers do not change. -/
theorem constant_keep {w : World} {test : Value → Making Value} {o : Value → Option Bool}
    {vs : List Value} (each : ∀ v ∈ vs, Constant I (passes w (test v)) (o v)) :
    Constant I (keep w test vs) (answered o vs) := by
  induction vs with
  | nil => exact constant_pure []
  | cons v vs ih =>
    rw [List.forall_mem_cons] at each
    rw [keep_cons]
    refine constant_bind each.1 fun b _ => ?_
    cases b with
    | true => exact constant_map _ (ih each.2)
    | false => exact ih each.2

theorem answered_sublist {o : Value → Option Bool} {vs ks : List Value}
    (h : answered o vs = some ks) : ks.Sublist vs := by
  induction vs generalizing ks with
  | nil =>
    cases h
    exact .slnil
  | cons v vs ih =>
    obtain ⟨b, -, h⟩ := Option.bind_eq_some_iff.1 h
    cases b with
    | true =>
      obtain ⟨ks', rest, rfl⟩ := Option.map_eq_some_iff.1 h
      exact (ih rest).cons_cons v
    | false => exact (ih h).cons v

/-- Asking a second test about the elements that pass a first one is asking both about each. -/
theorem answered_bind (o o' : Value → Option Bool) (vs : List Value) :
    (answered o vs).bind (answered o')
      = answered (fun v => (o v).bind fun b => if b then o' v else some false) vs := by
  induction vs with
  | nil => rfl
  | cons v vs ih =>
    rw [answered, answered, ← ih]
    cases o v with
    | none => rfl
    | some b =>
      cases b with
      | false => rfl
      | true =>
        cases answered o vs with
        | none => cases h : o' v <;> simp
        | some ks => simp [answered]

end Eval

end EntityGraph

namespace EntityGraph

/-! ## What counts as true -/

/-- Whether each value counts as true, or as false, in one trail as in another. -/
def SameTruth (w : World) (t t' : Trail) : Prop :=
  ∀ v, Value.truth (w.after t') v = Value.truth (w.after t) v

instance (w : World) : IsPreorder Trail (SameTruth w) where
  refl _ _ := rfl
  trans _ _ _ h h' v := (h' v).trans (h v)

/-- Whether each value counts as true, or as false, after a computation as it did before. -/
abbrev KeepsTruth {α : Type} (w : World) (x : Making α) : Prop := Keeps (SameTruth w) x

theorem keepsTruth_outcome {α : Type} (w : World) (x : Outcome α) :
    KeepsTruth w (liftM x : Making α) := by
  intro t v
  rw [runOn_outcome]

theorem keepsTruth_now (w w' : World) : KeepsTruth w (Making.now w') := fun _ _ => rfl

theorem keepsTruth_passes {w : World} {x : Making Value} (keeps : KeepsTruth w x) :
    KeepsTruth w (Eval.passes w x) :=
  keeps_bind keeps fun _ => keeps_bind (keepsTruth_now w w) fun _ => keepsTruth_outcome w _

/-- Where no class is one of named tuples, no object is empty at one time and not at another. -/
theorem keepsTruth_of_plain {α : Type} {w : World} (plain : ∀ c ∈ w.classes, c.kind ≠ .namedTuple)
    (x : Making α) : KeepsTruth w x := by
  have apart (t : Trail) (r : Ref) : Value.truth (w.after t) (.object r) = .ok true := by
    have kind : ((w.after t).objectKind r == .namedTuple) = false := by
      refine beq_false_of_ne fun is => ?_
      unfold World.objectKind Classes.kindOf at is
      cases found : ((w.after t).classes.lineage ((w.after t).className r)).find?
          (·.kind != .plain) with
      | none =>
        rw [found] at is
        cases is
      | some c =>
        rw [found] at is
        exact plain c (Classes.mem_of_mem_lineage (List.mem_of_find?_eq_some found)) is
    simp [Value.truth, Value.elements?, Value.tupleView?, kind]
  intro t v
  cases v with
  | object r => rw [apart, apart]
  | _ => rfl

namespace BinaryOp

/-- What a left operand has to count as to decide the operation by itself. -/
def decision? : BinaryOp → Option Bool
  | and => some false
  | or => some true
  | _ => none

/-- The connective that is the other one's dual. -/
def dual : BinaryOp → BinaryOp
  | and => or
  | or => and
  | op => op

theorem decision?_dual {op : BinaryOp} {d : Bool} (hop : op.decision? = some d) :
    op.dual.decision? = some !d := by
  cases op <;> cases hop <;> rfl

theorem apply_connective {op : BinaryOp} {d : Bool} (hop : op.decision? = some d) (w : World)
    (v u : Value) :
    op.apply w v u
      = Value.truth w v >>= fun x =>
        if x = d then .ok (.bool d) else .bool <$> Value.truth w u := by
  cases op <;> cases hop <;>
  · rw [apply, applyPresent]
    obtain f | _ | _ := Value.truth w v <;> rfl

end BinaryOp

/-! ## Questions one after the other -/

namespace Expr

variable {h : Host} {op : BinaryOp} {d : Bool} {a b c : Expr Value} {s : Scope Value}

/-- Whether the value of an expression counts as true. -/
def holds (h : Host) (e : Expr Value) (s : Scope Value) : Making Bool :=
  Eval.passes h.world (e.eval h s)

theorem eval_not (a : Expr Value) :
    (unary .not a).eval h s = (fun x => .bool !x) <$> a.holds h s := by
  rw [eval, holds, Eval.passes, map_eq_pure_bind, bind_assoc]
  refine bind_congr fun v => ?_
  rw [bind_assoc]
  refine bind_congr fun now => ?_
  show Value.own (Value.truth now v >>= fun x => .ok (.bool !x)) = _
  cases Value.truth now v <;> rfl

/-- A connective, step by step. -/
theorem eval_deciding (hop : op.decision? = some d) (a b : Expr Value) :
    (binary op a b).eval h s = a.eval h s >>= fun v => (do
      let x ← Value.truth (← Making.now h.world) v
      if x = d then return .bool d
      else
        let u ← b.eval h s
        return ← op.apply (← Making.now h.world) v u) := by
  rw [eval]
  refine bind_congr fun v => ?_
  cases op <;> cases hop <;>
  · refine bind_congr fun now => bind_congr fun x => ?_
    cases x <;> rfl

/-- The right operand is asked unless the left one decides, and its answer stands: the left one is
asked again, but has not changed its mind. -/
theorem eval_connective (hop : op.decision? = some d) (a : Expr Value)
    (keeps : KeepsTruth h.world (b.eval h s)) :
    (binary op a b).eval h s
      = a.holds h s >>= fun x => if x = d then pure (.bool d) else .bool <$> b.holds h s := by
  rw [eval_deciding hop, holds, Eval.passes, bind_assoc]
  refine bind_congr fun v => funext fun m => ?_
  show runOn _ m = runOn _ m
  rw [bind_assoc, runOn_now_bind, runOn_now_bind]
  cases left : Value.truth (h.world.after m) v with
  | error f => rfl
  | ok x =>
    rw [liftM_ok_bind, liftM_ok_bind]
    by_cases decided : x = d
    · rw [if_pos decided, if_pos decided]
    · rw [if_neg decided, if_neg decided, holds, Eval.passes, map_eq_pure_bind, bind_assoc]
      cases run : runOn (b.eval h s) m with
      | mk r n =>
        cases r with
        | error f => rw [runOn_bind_error run, runOn_bind_error run]
        | ok u =>
          have still : Value.truth (h.world.after n) v = .ok x :=
            (keeps_run keeps run v).trans left
          rw [runOn_bind_ok run, runOn_bind_ok run, runOn_now_bind, bind_assoc, runOn_now_bind,
            BinaryOp.apply_connective hop, still]
          show runOn (liftM (if x = d then _ else Value.bool <$> _) : Making Value) n = _
          rw [if_neg decided]
          cases Value.truth (h.world.after n) u <;> rfl

/-- Where the left operand decides, it is all that is evaluated, whatever the right one is. -/
theorem decided_eval (hop : op.decision? = some d) {t m : Trail} {v : Value}
    (run : runOn (a.eval h s) t = (.ok v, m)) (decides : Value.truth (h.world.after m) v = .ok d)
    (b : Expr Value) : runOn ((binary op a b).eval h s) t = (.ok (.bool d), m) := by
  rw [eval_deciding hop, runOn_bind_ok run, runOn_now_bind, decides, liftM_ok_bind, if_pos rfl]
  rfl

/-- A connective gives a truth value. -/
theorem isBool_of_connective (hop : op.decision? = some d) {t u : Trail} {v : Value}
    (run : runOn ((binary op a b).eval h s) t = (.ok v, u)) : ∃ x, v = .bool x := by
  rw [eval_deciding hop] at run
  obtain ⟨l, m, -, run⟩ := bind_eq_ok run
  rw [runOn_now_bind] at run
  obtain ⟨x, m', -, run⟩ := bind_eq_ok run
  split at run
  · cases run
    exact ⟨d, rfl⟩
  · obtain ⟨r, n, -, run⟩ := bind_eq_ok run
    rw [runOn_now_bind] at run
    obtain ⟨applied, -⟩ := outcome_of_run run
    rw [BinaryOp.apply_connective hop] at applied
    obtain ⟨y, -, applied⟩ := outcome_bind_ok applied
    split at applied
    · cases applied
      exact ⟨d, rfl⟩
    · obtain ⟨z, -, applied⟩ := outcome_bind_ok ((map_eq_pure_bind _ _).symm.trans applied)
      cases applied
      exact ⟨z, rfl⟩

/-- A connective is its operator on the values of the operands, if both have one. -/
theorem apply_of_operands (hop : op.decision? = some d) {t m n : Trail} {v u : Value}
    (keeps : KeepsTruth h.world (b.eval h s)) (left : runOn (a.eval h s) t = (.ok v, m))
    (right : runOn (b.eval h s) m = (.ok u, n)) :
    (runOn ((binary op a b).eval h s) t).1 = op.apply (h.world.after n) v u := by
  have still : Value.truth (h.world.after n) v = Value.truth (h.world.after m) v :=
    keeps_run keeps right v
  rw [eval_deciding hop, runOn_bind_ok left, runOn_now_bind]
  cases counts : Value.truth (h.world.after m) v with
  | error f =>
    rw [BinaryOp.apply_connective hop, still, counts]
    rfl
  | ok x =>
    rw [liftM_ok_bind]
    split
    · next decides =>
      rw [BinaryOp.apply_connective hop, still, counts]
      exact (if_pos decides).symm
    · rw [runOn_bind_ok right, runOn_now_bind, runOn_outcome]

/-- What counts as true of a result that is a truth value is that value. -/
theorem holds_of_eval {e : Expr Value} {x : Making Bool} (is : e.eval h s = .bool <$> x) :
    e.holds h s = x := by
  rw [holds, Eval.passes, is, map_eq_pure_bind, bind_assoc]
  exact (bind_congr fun b => rfl).trans (bind_pure x)

theorem holds_not (a : Expr Value) : (unary .not a).holds h s = (!·) <$> a.holds h s := by
  refine holds_of_eval ?_
  rw [eval_not, Functor.map_map]

theorem holds_connective (hop : op.decision? = some d) (a : Expr Value)
    (keeps : KeepsTruth h.world (b.eval h s)) :
    (binary op a b).holds h s
      = a.holds h s >>= fun x => if x = d then pure d else b.holds h s := by
  refine holds_of_eval ?_
  rw [eval_connective hop a keeps, map_bind]
  refine bind_congr fun x => ?_
  split
  · rw [map_pure]
  · rfl

theorem keepsTruth_not (keeps : KeepsTruth h.world (a.eval h s)) :
    KeepsTruth h.world ((unary .not a).eval h s) := by
  rw [eval_not, map_eq_pure_bind]
  exact keeps_bind (keepsTruth_passes keeps) fun _ => keeps_pure _

theorem keepsTruth_connective (hop : op.decision? = some d)
    (keeps : KeepsTruth h.world (a.eval h s)) (keeps' : KeepsTruth h.world (b.eval h s)) :
    KeepsTruth h.world ((binary op a b).eval h s) := by
  rw [eval_connective hop a keeps', map_eq_pure_bind]
  refine keeps_bind (keepsTruth_passes keeps) fun _ => keeps_ite (fun _ => keeps_pure _) fun _ => ?_
  exact keeps_bind (keepsTruth_passes keeps') fun _ => keeps_pure _

/-- De Morgan's laws. -/
theorem not_connective (hop : op.decision? = some d) (a : Expr Value)
    (keeps : KeepsTruth h.world (b.eval h s)) :
    (unary .not (binary op a b)).eval h s
      = (binary op.dual (unary .not a) (unary .not b)).eval h s := by
  rw [eval_not, holds_connective hop a keeps,
    eval_connective (BinaryOp.decision?_dual hop) _ (keepsTruth_not keeps), holds_not, holds_not]
  simp only [map_eq_pure_bind, bind_assoc, pure_bind]
  refine bind_congr fun x => ?_
  cases x <;> cases d <;> simp

theorem connective_assoc (hop : op.decision? = some d) (a : Expr Value)
    (keeps : KeepsTruth h.world (b.eval h s)) (keeps' : KeepsTruth h.world (c.eval h s)) :
    (binary op (binary op a b) c).eval h s = (binary op a (binary op b c)).eval h s := by
  rw [eval_connective hop _ keeps', eval_connective hop _ (keepsTruth_connective hop keeps keeps'),
    holds_connective hop a keeps, holds_connective hop b keeps', bind_assoc]
  refine bind_congr fun x => ?_
  by_cases decided : x = d
  · simp [decided]
  · simp only [if_neg decided, map_bind]
    refine bind_congr fun y => ?_
    split
    · rfl
    · rfl

end Expr

/-! ## Filtering twice -/

namespace Eval

variable {h : Host} {src p q : Expr Value} {s : Scope Value} {t m : Trail} {vs : List Value}

theorem run_filter (single : p.isLambdaOf 1 = true)
    (elements : runOn (elementsOf h src s) t = (.ok (some vs), m)) :
    runOn ((Expr.seq .filter src [p]).eval h s) t
      = runOn (Value.list <$> keep h.world (fun x => p.applyTo h [x] s) vs) m := by
  have fits : [p].find? (!·.isLambdaOf 1) = none := by simp [single]
  rw [eval_seq, runOn_bind_ok elements, map_eq_pure_bind]
  simp only [onElements, fits]
  rfl

/-- Filtering twice keeps the elements that one test keeps of those that the other one kept. -/
theorem run_filter_filter (single : p.isLambdaOf 1 = true) (single' : q.isLambdaOf 1 = true)
    (elements : runOn (elementsOf h src s) t = (.ok (some vs), m)) :
    runOn ((Expr.seq .filter (.seq .filter src [p]) [q]).eval h s) t
      = runOn (Value.list <$> (keep h.world (fun x => p.applyTo h [x] s) vs
          >>= keep h.world fun x => q.applyTo h [x] s)) m := by
  have left : runOn (elementsOf h (.seq .filter src [p]) s) t
      = runOn (some <$> keep h.world (fun x => p.applyTo h [x] s) vs) m := by
    rw [elementsOf_filter h src single, remaining, runOn_bind_ok elements, map_eq_pure_bind]
    rfl
  rw [map_bind]
  cases kept : runOn (keep h.world (fun x => p.applyTo h [x] s) vs) m with
  | mk r n =>
    rw [runOn_map, kept] at left
    cases r with
    | error f => rw [eval_seq, runOn_bind_error left, runOn_bind_error kept]
    | ok ks => rw [run_filter single' left, runOn_bind_ok kept]

/-- Whether a test asks whether two others both hold, the second one only if the first one does:
whatever each of them has for an answer whenever it is asked, this one has the answer of both. -/
def Conjoins (h : Host) (s : Scope Value) (p q f : Expr Value) : Prop :=
  ∀ I : Trail → Prop, ∃ J : Trail → Prop, (∀ t, I t → J t) ∧ ∀ v o o',
    Constant I (passes h.world (p.applyTo h [v] s)) o →
    Constant I (passes h.world (q.applyTo h [v] s)) o' →
    Constant J (passes h.world (f.applyTo h [v] s)) (o.bind fun b => if b then o' else some false)

theorem applyTo_single (h : Host) (x : Param) (b : Expr Value) (v : Value) (s : Scope Value) :
    (Expr.lambda [x] b).applyTo h [v] s = b.eval h (.bind x v s) := by
  rw [Expr.applyTo]
  rfl

theorem constant_and {a b : Expr Value} {I : Trail → Prop} {o o' : Option Bool}
    (keeps : KeepsTruth h.world (b.eval h s)) (left : Constant I (a.holds h s) o)
    (right : Constant I (b.holds h s) o') :
    Constant I ((Expr.binary .and a b).holds h s)
      (o.bind fun x => if x then o' else some false) := by
  rw [Expr.holds_connective rfl a keeps]
  refine constant_bind left fun x _ => ?_
  cases x with
  | true => exact right
  | false => exact constant_pure false

/-- Two tests with one parameter are conjoined by putting their bodies together. -/
theorem conjoins_bodies {x : Param} {a b : Expr Value}
    (keeps : ∀ v, KeepsTruth h.world ((Expr.lambda [x] b).applyTo h [v] s)) :
    Conjoins h s (.lambda [x] a) (.lambda [x] b) (.lambda [x] (.binary .and a b)) := by
  refine fun I => ⟨I, fun _ ht => ht, fun v o o' left right => ?_⟩
  rw [applyTo_single] at left right ⊢
  exact constant_and (applyTo_single h x b v s ▸ keeps v) left right

/-- Two tests are conjoined by asking both about a parameter that neither of them mentions, if calls
do not depend on the names in the lambdas that are kept. -/
theorem conjoins_invoked {z : Param} (even : ∀ f vs, Alike (h.call f vs) (h.call f vs))
    (keeps : ∀ v, KeepsTruth h.world (q.applyTo h [v] s)) (fresh : Expr.param z ∉ p.nodes)
    (fresh' : Expr.param z ∉ q.nodes) :
    Conjoins h s p q
      (.lambda [z] (.binary .and (.invoke p [.param z]) (.invoke q [.param z]))) := by
  refine fun I => ⟨fun t => ∃ t', I t' ∧ t'.Alike t, fun t ht => ⟨t, ht, t.alike_refl⟩,
    fun v o o' left right => ?_⟩
  have invoked (e : Expr Value) :
      (Expr.invoke e [.param z]).eval h (.bind z v s) = e.applyTo h [v] (.bind z v s) := by
    have found : (Scope.bind z v s).lookup z = .ok v := by simp [Scope.lookup, Scope.lookup?]
    rw [Expr.eval, Expr.evalList, Expr.eval, found]
    rfl
  have inside {e : Expr Value} (unused : Expr.param z ∉ e.nodes) :
      Alike (e.applyTo h [v] s) (e.applyTo h [v] (.bind z v s)) := by
    have names : Renames id e.nodes s (.bind z v s) :=
      { renames_id e.nodes s with
        values := fun p hp => by
          have other : p ≠ z := fun same => unused (same ▸ hp)
          simp [Scope.lookup?, other] }
    have alike := Expr.alike_applyTo even e [v] names
    rwa [Expr.rename_id] at alike
  have asked {x y : Making Value} (same : Alike x y) :
      Alike (passes h.world x) (passes h.world y) :=
    alike_bind same fun _ => alike_bind (alike_now _) fun _ => alike_outcome rfl
  rw [applyTo_single]
  refine constant_and ?_ ?_ ?_
  · rw [invoked]
    intro t v'
    have near := (inside fresh' t t t.alike_refl).2.memory
    have same : h.world.after (runOn (q.applyTo h [v] s) t).2
        = h.world.after (runOn (q.applyTo h [v] (.bind z v s)) t).2 := by
      rw [World.after, World.after, near]
    exact same ▸ keeps v t v'
  · rw [Expr.holds, invoked]
    exact left.alike (asked (inside fresh))
  · rw [Expr.holds, invoked]
    exact right.alike (asked (inside fresh'))

/-- Whether each of several tests has one answer about each element of a sequence, or fails,
whenever it is asked from then on. -/
def HaveAnswers (h : Host) (src : Expr Value) (tests : List (Expr Value)) (s : Scope Value)
    (t : Trail) : Prop :=
  ∃ I : Trail → Prop, ∀ vs m, runOn (elementsOf h src s) t = (.ok (some vs), m) →
    I m ∧ ∀ p ∈ tests, ∀ v ∈ vs, ∃ o, Constant I (passes h.world (p.applyTo h [v] s)) o

/-- Filtering by one test and then by another is filtering by both. -/
theorem filter_filter {f : Expr Value} (single : p.isLambdaOf 1 = true)
    (single' : q.isLambdaOf 1 = true) (single'' : f.isLambdaOf 1 = true)
    (both : Conjoins h s p q f) (answers : HaveAnswers h src [p, q] s t) :
    (runOn ((Expr.seq .filter (.seq .filter src [p]) [q]).eval h s) t).1.toOption
      = (runOn ((Expr.seq .filter src [f]).eval h s) t).1.toOption := by
  obtain ⟨I, answers⟩ := answers
  obtain ⟨J, sub, both⟩ := both I
  cases elements : runOn (elementsOf h src s) t with
  | mk r m =>
    obtain g | _ | vs := r
    · have left : runOn (elementsOf h (.seq .filter src [p]) s) t = (.error g, m) := by
        rw [elementsOf_filter h src single, remaining, runOn_bind_error elements]
      simp only [eval_seq, runOn_bind_error left, runOn_bind_error elements]
    · have left : runOn (elementsOf h (.seq .filter src [p]) s) t = (.ok none, m) := by
        rw [elementsOf_filter h src single, remaining, runOn_bind_ok elements]
        rfl
      simp only [eval_seq, runOn_bind_ok left, runOn_bind_ok elements]
      rfl
    · obtain ⟨start, answers⟩ := answers vs m elements
      have each : ∀ v : Value, ∃ o o', v ∈ vs →
          Constant I (passes h.world (p.applyTo h [v] s)) o
            ∧ Constant I (passes h.world (q.applyTo h [v] s)) o' := by
        intro v
        by_cases hv : v ∈ vs
        · obtain ⟨o, ho⟩ := answers p (by simp) v hv
          obtain ⟨o', ho'⟩ := answers q (by simp) v hv
          exact ⟨o, o', fun _ => ⟨ho, ho'⟩⟩
        · exact ⟨none, none, fun h => absurd h hv⟩
      choose o o' each using each
      have twice := constant_map Value.list <|
        constant_bind (constant_keep fun v hv => (each v hv).1) fun ks hks =>
          constant_keep fun v hv => (each v ((answered_sublist hks).subset hv)).2
      have once := constant_map Value.list <|
        constant_keep fun v hv => both v (o v) (o' v) (each v hv).1 (each v hv).2
      rw [run_filter_filter single single' elements, run_filter single'' elements,
        twice.outcome m start, once.outcome m (sub m start)]
      exact congrArg _ (answered_bind o o' vs)

end Eval

namespace Expr

/-- Whether an element is greater than one. -/
def aboveOne : Expr Value := lambda [⟨1, "x"⟩] (binary .gt (param ⟨1, "x"⟩) (lit (.int 1)))

/-- Whether an element is less than three. -/
def belowThree : Expr Value := lambda [⟨2, "y"⟩] (binary .lt (param ⟨2, "y"⟩) (lit (.int 3)))

/-! ## Operands that change what counts as true -/

/-- A gate that is shut. -/
def gated : World := { (default : World) with
  objects := [("gate", ⟨.declared "Gate", [("open", .bool false)]⟩)] }

/-- What opens the gate if it was shut, and shuts it if it was open, and then gives an answer. The
answer may depend on whether the gate was open. -/
def turning (answer : Script Value) : Expr Value :=
  let gate : Script Value := .lit (.object (.declared "gate"))
  let turn : Script Value := .list [answer,
    .and (.var "was") (.setAttr gate "open" (.bool false)),
    .and (.not (.var "was")) (.setAttr gate "open" (.bool true))]
  func (lit (.function 1 ["x"] none
    (.call (.fn ["was"] none (.item turn (.lit (.int 0)))) [.attr gate "open"]) []))
    [param ⟨1, "x"⟩]

/-- Whether the gate is open. -/
def isOpen : Expr Value := member (lit (.object (.declared "gate"))) "open"

/-- A tuple, and a function that empties it. -/
def emptying : Host where
  world := { (default : World) with
    classes := [⟨"Bag", .namedTuple, [], [⟨"content", .missing, none, false⟩], [], [], [], []⟩]
    objects := [("bag", ⟨.declared "Bag", [("content", .int 1)]⟩)] }
  call _ _ := do
    Making.put (.declared "bag") ⟨.declared "Bag", []⟩
    return .bool true

end Expr

end EntityGraph
