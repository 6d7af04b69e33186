import EntityGraph.Proofs.Eval.Alike
import EntityGraph.Script.Run

/-!
# Operations with a test and filtering

One evaluation serves all the operations on sequences, and their ways part late: first come the
elements of the source, or the news that it is missing, then the test if there is one, and only then
what the operation itself makes of what remains. This module takes that evaluation apart along these
steps. What two operations have in common they do in the same steps, with the same effects on the
way, so that they can only differ in the last one, and that one has no effects.

A test may do anything, and answer differently each time. So nothing here says what a test gives for
an element, only what it gave.
-/

namespace EntityGraph

namespace Eval

/-! ## Elements and what is made of them -/

/-- The number of elements that an integer speaks of. -/
theorem countOf_int (w : World) (n : Int) : countOf w (.int n) = .ok n.toNat := by
  have tested : Value.operate w .gt (.int 0) (.int n) = .ok (.bool (compare 0 n == .gt)) := rfl
  rw [countOf, tested]
  by_cases h : 0 ≤ n
  · have le : compare 0 n ≠ .gt := by simpa [Int.compare_eq_gt] using h
    rw [beq_false_of_ne le]
    rfl
  · have gt : compare 0 n = .gt := by simpa [Int.compare_eq_gt] using h
    have none : n.toNat = 0 := Int.toNat_of_nonpos (by omega)
    rw [gt, none]
    rfl

/-- The elements of the value of an expression, or nothing if the value is missing. -/
def elementsOf (h : Host) (src : Expr Value) (s : Scope Value) : Making (Option (List Value)) := do
  let v ← src.eval h s
  if v.isNone then return none
  else return some (← Value.elements (← Making.now h.world) v)

/-- What an operation makes of the elements of its source, or of a missing source. -/
def onElements (h : Host) (op : SeqOp) (self : Expr Value) (as : List (Expr Value))
    (s : Scope Value) : Option (List Value) → Making Value
  | none => if op.passesMissing then return .none else throw (.missingSequence op self)
  | some vs =>
    if op.takesFunction then
      match as.find? (!·.isLambdaOf 1) with
      | some bad => throw (.elementLambda bad)
      | none =>
        applyFunction h.world op self
          (if as.isEmpty then none else some fun x => Expr.applyFirst h as x s) vs
    else do
      let count ← Expr.evalFirst h as s
      return ← slice (← Making.now h.world) op vs count

theorem eval_seq (h : Host) (op : SeqOp) (src : Expr Value) (as : List (Expr Value))
    (s : Scope Value) :
    (Expr.seq op src as).eval h s
      = elementsOf h src s >>= onElements h op (.seq op src as) as s := by
  rw [Expr.eval, elementsOf, bind_assoc]
  refine congrArg _ (funext fun v => ?_)
  cases v.isNone with
  | true => rfl
  | false =>
    simp only [Bool.false_eq_true, if_false, bind_assoc, pure_bind]
    rfl

/-! ## Elements that pass a test -/

/-- The elements that an operation goes on with: those of its source that pass its test, or all of
them if it has none. Nothing if the source is missing. -/
def remaining (h : Host) (src : Expr Value) (as : List (Expr Value)) (s : Scope Value) :
    Making (Option (List Value)) := do
  match ← elementsOf h src s with
  | none => return none
  | some vs =>
    if as.isEmpty then return some vs
    else return some (← keep h.world (fun x => Expr.applyFirst h as x s) vs)

/-- What an operation concludes from the elements that remain, or from a missing source. -/
def concludeFrom (op : SeqOp) (self : Expr Value) : Option (List Value) → Outcome Value
  | none => if op.passesMissing then .ok .none else .error (.missingSequence op self)
  | some vs => conclude op self vs

/-- The operations that go on with the elements that pass their test. -/
def tests : List SeqOp := [.filter, .first, .firstOrDefault, .count, .any]

theorem eval_testing (h : Host) {op : SeqOp} (testing : op ∈ tests) (src : Expr Value)
    {as : List (Expr Value)} (suited : as.all (·.isLambdaOf 1) = true) (s : Scope Value) :
    (Expr.seq op src as).eval h s
      = remaining h src as s >>= fun r => liftM (concludeFrom op (.seq op src as) r) := by
  have fits : as.find? (!·.isLambdaOf 1) = none := by
    simpa [List.find?_eq_none] using suited
  have takes : op.takesFunction = true := by
    simp only [tests, List.mem_cons, List.not_mem_nil, or_false] at testing
    rcases testing with rfl | rfl | rfl | rfl | rfl <;> rfl
  rw [eval_seq, remaining, bind_assoc]
  refine congrArg _ (funext fun r => ?_)
  cases r with
  | none =>
    simp only [onElements, concludeFrom, pure_bind]
    split <;> rfl
  | some vs =>
    simp only [onElements, concludeFrom, takes, if_true, fits]
    have applied : ∀ f, applyFunction h.world op (.seq op src as) f vs
        = f.elim (do return ← conclude op (.seq op src as) vs : Making Value)
          (fun f => do return ← conclude op (.seq op src as) (← keep h.world f vs)) := by
      simp only [tests, List.mem_cons, List.not_mem_nil, or_false] at testing
      intro f
      rcases testing with rfl | rfl | rfl | rfl | rfl <;> cases f <;> rfl
    rw [applied]
    cases as.isEmpty with
    | true => rfl
    | false => simp

/-- The elements of a filtered sequence are those that remain. -/
theorem elementsOf_filter (h : Host) (src : Expr Value) {p : Expr Value}
    (single : p.isLambdaOf 1 = true) (s : Scope Value) :
    elementsOf h (.seq .filter src [p]) s = remaining h src [p] s := by
  have again : ∀ r : Option (List Value),
      (liftM (concludeFrom .filter (.seq .filter src [p]) r) >>= fun v : Value =>
        if v.isNone then (return none : Making (Option (List Value)))
        else return some (← Value.elements (← Making.now h.world) v)) = pure r := by
    rintro (_ | vs) <;> rfl
  rw [elementsOf, eval_testing h (by simp [tests]) src (by simpa using single), bind_assoc]
  simp only [again, bind_pure]

/-- Without a test all elements remain. -/
theorem remaining_nil (h : Host) (src : Expr Value) (s : Scope Value) :
    remaining h src [] s = elementsOf h src s := by
  have all : ∀ r : Option (List Value), (match r with
      | none => return none
      | some vs =>
        if ([] : List (Expr Value)).isEmpty then return some vs
        else return some (← keep h.world (fun x => Expr.applyFirst h [] x s) vs)
      : Making (Option (List Value))) = pure r := by
    rintro (_ | vs) <;> rfl
  rw [remaining]
  simp only [all, bind_pure]

theorem run_testing (h : Host) {op : SeqOp} (testing : op ∈ tests) (src : Expr Value)
    {as : List (Expr Value)} (suited : as.all (·.isLambdaOf 1) = true) (s : Scope Value)
    (t : Trail) :
    runOn ((Expr.seq op src as).eval h s) t
      = ((runOn (remaining h src as s) t).1.bind (concludeFrom op (.seq op src as)),
          (runOn (remaining h src as s) t).2) := by
  rw [eval_testing h testing src suited, runOn_bind]
  obtain ⟨r | r, u⟩ := runOn (remaining h src as s) t
  · rfl
  · exact runOn_outcome _ u

/-- An operation's own faults tell what it is applied to, and nothing else does. -/
theorem told_concludeFrom (op : SeqOp) (self self' : Expr Value) (r : Option (List Value)) :
    told (concludeFrom op self r) = told (concludeFrom op self' r) := by
  cases r with
  | none =>
    rw [concludeFrom, concludeFrom]
    split <;> rfl
  | some vs => cases op <;> cases vs <;> rfl

/-- What a test answers for an element, at some time. -/
def Answers (w : World) (test : Value → Making Value) (v : Value) (b : Bool) : Prop :=
  ∃ t u a, runOn (test v) t = (.ok a, u) ∧ Value.truth (w.after u) a = .ok b

/-- What is kept of several elements by the answers for them. -/
def keptBy (vs : List Value) (bs : List Bool) : List Value :=
  ((vs.zip bs).filter (·.2)).map (·.1)

theorem keptBy_sublist (vs : List Value) (bs : List Bool) (same : vs.length = bs.length) :
    (keptBy vs bs).Sublist vs := by
  have part := (List.filter_sublist (p := (·.2)) (l := vs.zip bs)).map (·.1)
  rwa [List.map_fst_zip (by omega)] at part

theorem keep_ok {w : World} {test : Value → Making Value} {vs ks : List Value} {t u : Trail}
    (run : runOn (keep w test vs) t = (.ok ks, u)) :
    ∃ bs, List.Forall₂ (Answers w test) vs bs ∧ ks = keptBy vs bs := by
  induction vs generalizing ks t with
  | nil =>
    cases run
    exact ⟨[], .nil, rfl⟩
  | cons v vs ih =>
    rw [keep] at run
    obtain ⟨a, t', answered, run⟩ := bind_eq_ok run
    rw [runOn_now_bind] at run
    obtain ⟨b, t'', true?, run⟩ := bind_eq_ok run
    obtain ⟨isTruth, rfl⟩ := outcome_of_run true?
    have answer : Answers w test v b := ⟨t, t', a, answered, isTruth⟩
    cases b with
    | true =>
      obtain ⟨ks', t'', rest, run⟩ := bind_eq_ok run
      cases run
      obtain ⟨bs, answers, rfl⟩ := ih rest
      exact ⟨true :: bs, .cons answer answers, rfl⟩
    | false =>
      obtain ⟨bs, answers, rfl⟩ := ih run
      exact ⟨false :: bs, .cons answer answers, rfl⟩

/-- What is made of elements one after the other: each one of the element at its place. -/
theorem mapM_forall₂ {f : Value → Making Value} {vs us : List Value} {t u : Trail}
    (run : runOn (vs.mapM f) t = (.ok us, u)) :
    List.Forall₂ (fun v a => ∃ t u, runOn (f v) t = (.ok a, u)) vs us := by
  induction vs generalizing us t with
  | nil =>
    rw [List.mapM_nil] at run
    cases run
    exact .nil
  | cons v vs ih =>
    rw [List.mapM_cons] at run
    obtain ⟨a, t', first, run⟩ := bind_eq_ok run
    obtain ⟨us', t'', rest, run⟩ := bind_eq_ok run
    cases run
    exact .cons ⟨t, t', first⟩ (ih rest)

/-! ## What the operations say of each other -/

/-- Whether two computations come out with the same value or with faults of the same kind, and leave
the same behind, wherever they start. -/
def SameOutcome (x y : Making Value) : Prop :=
  ∀ t, told (runOn x t).1 = told (runOn y t).1 ∧ (runOn x t).2 = (runOn y t).2

variable {h : Host} {src p : Expr Value} {as : List (Expr Value)} {s : Scope Value} {t u : Trail}

/-- A test of an operation can as well filter its source. -/
theorem testing_filtered {op : SeqOp} (testing : op ∈ tests) (single : p.isLambdaOf 1 = true) :
    SameOutcome ((Expr.seq op src [p]).eval h s)
      ((Expr.seq op (.seq .filter src [p]) []).eval h s) := by
  intro t
  rw [run_testing h testing src (by simpa using single), run_testing h testing _ rfl,
    remaining_nil, elementsOf_filter h src single]
  refine ⟨?_, rfl⟩
  cases (runOn (remaining h src [p] s) t).1 with
  | error f => rfl
  | ok r => exact told_concludeFrom op _ _ r

/-- There is any element exactly if there are more than none. -/
theorem any_of_count (suited : as.all (·.isLambdaOf 1) = true) {u' : Trail} {b n : Value}
    (anyRun : runOn ((Expr.seq .any src as).eval h s) t = (.ok b, u))
    (countRun : runOn ((Expr.seq .count src as).eval h s) t = (.ok n, u')) :
    ∃ k : Int, n = .int k ∧ b = .bool (decide (0 < k)) := by
  rw [run_testing h (by simp [tests]) src suited] at anyRun countRun
  generalize runOn (remaining h src as s) t = r at anyRun countRun
  obtain ⟨f | _ | vs, u⟩ := r
  · cases anyRun
  · cases anyRun
  · cases anyRun
    cases countRun
    refine ⟨vs.length, rfl, congrArg Value.bool ?_⟩
    cases vs <;> simp

/-- The first element is the first one or the default as well. -/
theorem firstOrDefault_of_first (suited : as.all (·.isLambdaOf 1) = true) {v : Value}
    (run : runOn ((Expr.seq .first src as).eval h s) t = (.ok v, u)) :
    runOn ((Expr.seq .firstOrDefault src as).eval h s) t = (.ok v, u) := by
  rw [run_testing h (by simp [tests]) src suited] at run ⊢
  generalize runOn (remaining h src as s) t = r at run
  obtain ⟨f | _ | _ | ⟨v, vs⟩, u⟩ := r <;> cases run
  rfl

/-- Whether an operation fails although the elements that it goes on with can be told, or it can be
told that its source is missing. -/
def FailsByItself (h : Host) (op : SeqOp) (src : Expr Value) (as : List (Expr Value))
    (s : Scope Value) (t : Trail) (f : Fault) (u : Trail) : Prop :=
  runOn ((Expr.seq op src as).eval h s) t = (.error f, u)
    ∧ ∃ r, runOn (remaining h src as s) t = (.ok r, u)

/-- Where there is no first element by the operation's own account, the default is the missing
value. -/
theorem firstOrDefault_of_fails (suited : as.all (·.isLambdaOf 1) = true) {f : Fault}
    (fails : FailsByItself h .first src as s t f u) :
    (f = .missingSequence .first (.seq .first src as) ∨ f = .noElement (.seq .first src as))
      ∧ runOn ((Expr.seq .firstOrDefault src as).eval h s) t = (.ok .none, u) := by
  obtain ⟨run, r, left⟩ := fails
  rw [run_testing h (by simp [tests]) src suited, left] at run ⊢
  obtain _ | _ | ⟨v, vs⟩ := r <;> cases run
  · exact ⟨.inl rfl, rfl⟩
  · exact ⟨.inr rfl, rfl⟩

/-- Where the elements cannot be told, there is neither a first one nor a default. -/
theorem firstOrDefault_of_other (suited : as.all (·.isLambdaOf 1) = true) {f : Fault}
    (run : runOn ((Expr.seq .first src as).eval h s) t = (.error f, u))
    (other : ¬FailsByItself h .first src as s t f u) :
    runOn ((Expr.seq .firstOrDefault src as).eval h s) t = (.error f, u) := by
  have both := run
  rw [run_testing h (by simp [tests]) src suited] at both ⊢
  cases left : runOn (remaining h src as s) t with
  | mk r u' =>
    rw [left] at both
    cases r with
    | error g =>
      cases both
      rfl
    | ok r =>
      obtain rfl : u' = u := congrArg Prod.snd both
      exact absurd ⟨run, r, left⟩ other

/-- Filtering keeps some of the elements in their order: those for which the test gives what counts
as true. -/
theorem filter_keeps (single : p.isLambdaOf 1 = true) {v : Value}
    (run : runOn ((Expr.seq .filter src [p]).eval h s) t = (.ok v, u)) :
    ∃ r m, runOn (elementsOf h src s) t = (.ok r, m) ∧
      match r with
      | none => v = .none
      | some vs => ∃ bs, List.Forall₂ (Answers h.world fun x => p.applyTo h [x] s) vs bs
          ∧ v = .list (keptBy vs bs) ∧ (keptBy vs bs).Sublist vs := by
  rw [eval_testing h (by simp [tests]) src (by simpa using single), remaining, bind_assoc] at run
  obtain ⟨r, m, elements, run⟩ := bind_eq_ok run
  refine ⟨r, m, elements, ?_⟩
  cases r with
  | none =>
    cases run
    rfl
  | some vs =>
    obtain ⟨r, m', kept, run⟩ := bind_eq_ok run
    obtain ⟨ks, m'', kept, done⟩ := bind_eq_ok (x := keep h.world _ vs) kept
    cases done
    cases run
    obtain ⟨bs, answers, rfl⟩ := keep_ok kept
    exact ⟨bs, answers, rfl, keptBy_sublist vs bs answers.length_eq⟩

/-- Selecting makes one value of each element, in their order. -/
theorem select_maps (single : p.isLambdaOf 1 = true) {v : Value}
    (run : runOn ((Expr.seq .select src [p]).eval h s) t = (.ok v, u)) :
    ∃ r m, runOn (elementsOf h src s) t = (.ok r, m) ∧
      match r with
      | none => v = .none
      | some vs => ∃ us, v = .list us ∧ us.length = vs.length
          ∧ List.Forall₂ (fun x a => ∃ t u, runOn (p.applyTo h [x] s) t = (.ok a, u)) vs us := by
  rw [eval_seq] at run
  obtain ⟨r, m, elements, run⟩ := bind_eq_ok run
  refine ⟨r, m, elements, ?_⟩
  cases r with
  | none =>
    cases run
    rfl
  | some vs =>
    have fits : [p].find? (!·.isLambdaOf 1) = none := by simp [single]
    simp only [onElements, fits] at run
    obtain ⟨us, m', made, run⟩ := bind_eq_ok (x := vs.mapM _) run
    cases run
    have each := mapM_forall₂ made
    exact ⟨us, rfl, each.length_eq.symm, each⟩

/-- What is taken and what is skipped make up the source again, however many that are. -/
theorem take_skip {c : Expr Value} :
    match runOn (elementsOf h src s) t with
    | (.error f, m) =>
      runOn ((Expr.seq .take src [c]).eval h s) t = (.error f, m)
        ∧ runOn ((Expr.seq .skip src [c]).eval h s) t = (.error f, m)
    | (.ok none, m) =>
      runOn ((Expr.seq .take src [c]).eval h s) t = (.ok .none, m)
        ∧ runOn ((Expr.seq .skip src [c]).eval h s) t = (.ok .none, m)
    | (.ok (some vs), m) => ∀ (n : Int) u, runOn (c.eval h s) m = (.ok (.int n), u) →
      ∃ xs ys, runOn ((Expr.seq .take src [c]).eval h s) t = (.ok (.list xs), u)
        ∧ runOn ((Expr.seq .skip src [c]).eval h s) t = (.ok (.list ys), u)
        ∧ xs ++ ys = vs := by
  cases elements : runOn (elementsOf h src s) t with
  | mk r m =>
    obtain f | _ | vs := r
    · simp only [eval_seq, runOn_bind_error elements, and_self]
    · simp only [eval_seq, runOn_bind_ok elements]
      exact ⟨rfl, rfl⟩
    · intro n u counted
      refine ⟨vs.take n.toNat, vs.drop n.toNat, ?_, ?_, List.take_append_drop _ _⟩ <;>
      · rw [eval_seq, runOn_bind_ok elements]
        simp only [onElements, SeqOp.takesFunction, Bool.false_eq_true, if_false, Expr.evalFirst]
        rw [runOn_bind_ok counted, runOn_now_bind, runOn_outcome, slice, countOf_int]
        rfl

end Eval

/-- The operations that take a test agree with filtering first and with each other, whatever the
source is and whatever the test does: looking for elements that pass it is looking for any among
those that it leaves, in the outcome and in what it leaves behind. A fault of `first` is its own if
the elements it looks among are known; what filtering keeps and what selecting makes is told element
by element; a count may be any expression that comes out as an integer. -/
theorem testing_agrees_with_filtering (h : Host) (src p : Expr Value)
    (single : p.isLambdaOf 1 = true) (s : Scope Value) :
    (∀ op ∈ [SeqOp.count, .any, .first, .firstOrDefault],
      Eval.SameOutcome ((Expr.seq op src [p]).eval h s)
        ((Expr.seq op (.seq .filter src [p]) []).eval h s))
    ∧ (∀ as ∈ [[], [p]],
      (∀ t u u' b n, runOn ((Expr.seq .any src as).eval h s) t = (.ok b, u) →
        runOn ((Expr.seq .count src as).eval h s) t = (.ok n, u') →
        ∃ k : Int, n = .int k ∧ b = .bool (decide (0 < k)))
      ∧ (∀ t u v, runOn ((Expr.seq .first src as).eval h s) t = (.ok v, u) →
        runOn ((Expr.seq .firstOrDefault src as).eval h s) t = (.ok v, u))
      ∧ (∀ t u f, Eval.FailsByItself h .first src as s t f u →
        (f = .missingSequence .first (.seq .first src as) ∨ f = .noElement (.seq .first src as))
          ∧ runOn ((Expr.seq .firstOrDefault src as).eval h s) t = (.ok .none, u))
      ∧ (∀ t u f, runOn ((Expr.seq .first src as).eval h s) t = (.error f, u) →
        ¬Eval.FailsByItself h .first src as s t f u →
        runOn ((Expr.seq .firstOrDefault src as).eval h s) t = (.error f, u)))
    ∧ (∀ t u v, runOn ((Expr.seq .filter src [p]).eval h s) t = (.ok v, u) →
      ∃ r m, runOn (Eval.elementsOf h src s) t = (.ok r, m) ∧
        match r with
        | none => v = .none
        | some vs =>
          ∃ bs, List.Forall₂ (Eval.Answers h.world fun x => p.applyTo h [x] s) vs bs
            ∧ v = .list (Eval.keptBy vs bs) ∧ (Eval.keptBy vs bs).Sublist vs)
    ∧ (∀ t u v, runOn ((Expr.seq .select src [p]).eval h s) t = (.ok v, u) →
      ∃ r m, runOn (Eval.elementsOf h src s) t = (.ok r, m) ∧
        match r with
        | none => v = .none
        | some vs =>
          ∃ us, v = .list us ∧ us.length = vs.length
            ∧ List.Forall₂ (fun x a => ∃ t u, runOn (p.applyTo h [x] s) t = (.ok a, u)) vs us)
    ∧ ∀ t c, match runOn (Eval.elementsOf h src s) t with
      | (.error f, m) =>
        runOn ((Expr.seq .take src [c]).eval h s) t = (.error f, m)
          ∧ runOn ((Expr.seq .skip src [c]).eval h s) t = (.error f, m)
      | (.ok none, m) =>
        runOn ((Expr.seq .take src [c]).eval h s) t = (.ok .none, m)
          ∧ runOn ((Expr.seq .skip src [c]).eval h s) t = (.ok .none, m)
      | (.ok (some vs), m) => ∀ (n : Int) u, runOn (c.eval h s) m = (.ok (.int n), u) →
        ∃ xs ys, runOn ((Expr.seq .take src [c]).eval h s) t = (.ok (.list xs), u)
          ∧ runOn ((Expr.seq .skip src [c]).eval h s) t = (.ok (.list ys), u)
          ∧ xs ++ ys = vs := by
  refine ⟨fun op hop => ?_, fun as has => ?_, fun _ _ _ => Eval.filter_keeps single,
    fun _ _ _ => Eval.select_maps single, fun _ _ => Eval.take_skip⟩
  · have testing : op ∈ Eval.tests := by
      simp only [List.mem_cons, List.not_mem_nil, or_false] at hop
      rcases hop with rfl | rfl | rfl | rfl <;> simp [Eval.tests]
    exact Eval.testing_filtered testing single
  · have suited : as.all (·.isLambdaOf 1) = true := by
      simp only [List.mem_cons, List.not_mem_nil, or_false] at has
      rcases has with rfl | rfl <;> simp [single]
    exact ⟨fun _ _ _ _ _ => Eval.any_of_count suited,
      fun _ _ _ => Eval.firstOrDefault_of_first suited,
      fun _ _ _ => Eval.firstOrDefault_of_fails suited,
      fun _ _ _ => Eval.firstOrDefault_of_other suited⟩

namespace Expr

/-- Whether an element is greater than one. -/
def exceeding : Expr Value := lambda [⟨1, "x"⟩] (binary .gt (param ⟨1, "x"⟩) (lit (.int 1)))

theorem exceeding_agrees :
    exceeding.isLambdaOf 1 = true
      ∧ Eval.SameOutcome
        ((seq .first (lit (.list [.int 1, .int 2])) [exceeding]).eval (default : World).host .empty)
        ((seq .first (seq .filter (lit (.list [.int 1, .int 2])) [exceeding]) []).eval
          (default : World).host .empty) :=
  ⟨rfl, (testing_agrees_with_filtering (default : World).host _ exceeding rfl .empty).1 .first
    (by simp)⟩

end Expr

end EntityGraph
