import EntityGraph.Proofs.Eval.Sorted
import EntityGraph.Proofs.Eval.Connectives

/-!
# Ordering a sequence

Ordering asks for all keys first and compares them then, so what comes out is a matter of the keys
that were given and of the world as it is after the last one. Whatever the keys do on the way, the
elements are sorted by what they gave.

Filtering before and after ordering asks other questions: about fewer elements for the keys, and in
another order for the test. Both come out the same if neither the keys nor the answers nor the order
of the keys depend on when they are asked for.
-/

namespace EntityGraph

/-- Whether an operation that orders a sequence does so in descending order. -/
def SeqOp.descends? : SeqOp → Option Bool
  | orderBy => some false
  | orderByDescending => some true
  | _ => none

namespace Eval

variable {h : Host} {op : SeqOp} {down : Bool} {src key p : Expr Value} {s : Scope Value}
  {t m u : Trail} {vs : List Value}

theorem run_order (hop : op.descends? = some down) (single : key.isLambdaOf 1 = true)
    (elements : runOn (elementsOf h src s) t = (.ok (some vs), m)) :
    runOn ((Expr.seq op src [key]).eval h s) t
      = runOn (sorted h.world (fun v => key.applyTo h [v] s) down vs) m := by
  have fits : [key].find? (!·.isLambdaOf 1) = none := by simp [single]
  rw [eval_seq, runOn_bind_ok elements]
  cases op <;> cases hop <;>
  · simp only [onElements, fits]
    rfl

theorem run_sorted {w : World} {f : Value → Making Value} {xs : List Sorting.Keyed}
    (keyed : runOn (vs.mapM fun v => do return (← f v, v)) m = (.ok xs, u)) :
    runOn (sorted w f down vs) m
      = ((if down then Sorting.descending (w.after u) xs else Sorting.ascending (w.after u) xs).map
          fun done => .list (done.map (·.2)), u) := by
  rw [sorted, runOn_bind_ok keyed, runOn_now_bind]
  cases down with
  | false =>
    show runOn (liftM (Sorting.ascending (w.after u) xs) >>= _) u = _
    rw [runOn_bind, runOn_outcome]
    cases Sorting.ascending (w.after u) xs <;> rfl
  | true =>
    show runOn (liftM (Sorting.descending (w.after u) xs) >>= _) u = _
    rw [runOn_bind, runOn_outcome]
    cases Sorting.descending (w.after u) xs <;> rfl

theorem mapM_keyed {f : Value → Making Value} {ks : List Value}
    (keys : runOn (vs.mapM f) m = (.ok ks, u)) :
    runOn (vs.mapM fun v => do return (← f v, v)) m = (.ok (ks.zip vs), u) := by
  induction vs generalizing ks m with
  | nil =>
    rw [List.mapM_nil] at keys
    cases keys
    rfl
  | cons v vs ih =>
    rw [List.mapM_cons] at keys
    obtain ⟨k, m', first, keys⟩ := bind_eq_ok keys
    obtain ⟨ks', m'', rest, keys⟩ := bind_eq_ok keys
    cases keys
    rw [List.mapM_cons, bind_assoc, runOn_bind_ok first, pure_bind, runOn_bind_ok (ih rest)]
    rfl

/-- Ordering puts the elements with a missing key in front, or at the end in descending order, and
sorts the others by their keys. -/
theorem order_sorts (hop : op.descends? = some down) (single : key.isLambdaOf 1 = true)
    (elements : runOn (elementsOf h src s) t = (.ok (some vs), m)) {ks : List Value}
    (keys : runOn (vs.mapM fun v => key.applyTo h [v] s) m = (.ok ks, u))
    (comparable : Sorting.Comparable (Sorting.before (h.world.after u))
      fun k => k ∈ ks ∧ k.isNone = false) :
    ∃ ys, runOn ((Expr.seq op src [key]).eval h s) t
        = (.ok (.list ((if down then ys ++ (ks.zip vs).filter (·.1.isNone)
            else (ks.zip vs).filter (·.1.isNone) ++ ys).map (·.2))), u)
      ∧ Sorting.SortsInto (h.world.after u) down ((ks.zip vs).filter (!·.1.isNone)) ys := by
  have comparable' : Sorting.Comparable (Sorting.before (h.world.after u))
      fun k => k ∈ (ks.zip vs).map (·.1) ∧ k.isNone = false := by
    refine comparable.on (f := id) fun k hk => ⟨?_, hk.2⟩
    obtain ⟨x, hx, rfl⟩ := List.mem_map.1 hk.1
    exact (List.of_mem_zip hx).1
  obtain ⟨ys, sorted, spec⟩ := Sorting.order_keyed comparable' down
  refine ⟨ys, ?_, spec⟩
  rw [run_order hop single elements, run_sorted (mapM_keyed keys), sorted]
  rfl

/-! ## Filtering before and after -/

/-- Whether elements have keys, answers of a test and an order of their keys that do not depend on
when they are asked for, as long as a property of trails lasts. -/
structure Lasting (I : Trail → Prop) (h : Host) (key p : Expr Value) (s : Scope Value)
    (vs : List Value) (k : Value → Value) (b : Value → Bool) : Prop where
  keys : ∀ v ∈ vs, Constant I (key.applyTo h [v] s) (some (k v))
  answers : ∀ v ∈ vs, Constant I (passes h.world (p.applyTo h [v] s)) (some (b v))
  comparable : ∀ t, I t →
    Sorting.Comparable (Sorting.before (h.world.after t)) fun a => a ∈ vs.map k ∧ a.isNone = false
  order : ∀ t t', I t → I t' → ∀ a ∈ vs.map k, ∀ a' ∈ vs.map k,
    Sorting.before (h.world.after t') a a' = Sorting.before (h.world.after t) a a'

theorem answered_some (b : Value → Bool) (vs : List Value) :
    answered (fun v => some (b v)) vs = some (vs.filter b) := by
  induction vs with
  | nil => rfl
  | cons v vs ih =>
    rw [answered, ih, List.filter_cons]
    cases b v <;> rfl

theorem constant_mapM {I : Trail → Prop} {f : Value → Making Value} {k : Value → Value}
    (each : ∀ v ∈ vs, Constant I (f v) (some (k v))) :
    Constant I (vs.mapM f) (some (vs.map k)) := by
  induction vs with
  | nil =>
    rw [List.mapM_nil]
    exact constant_pure []
  | cons v vs ih =>
    rw [List.forall_mem_cons] at each
    rw [List.mapM_cons]
    exact constant_bind (g := fun a => (some (vs.map k)).bind fun as => some (a :: as)) each.1
      fun a _ => constant_bind (ih each.2) fun as _ => constant_pure (a :: as)

/-- A sequence whose value is a list has its elements. -/
theorem elementsOf_list {e : Expr Value}
    (run : runOn (e.eval h s) t = (.ok (.list vs), u)) :
    runOn (elementsOf h e s) t = (.ok (some vs), u) := by
  rw [elementsOf, runOn_bind_ok run]
  rfl

section

variable {I : Trail → Prop} {k : Value → Value} {b : Value → Bool}

/-- What filtering keeps, if the answers last. -/
theorem Lasting.run_filter (lasting : Lasting I h key p s vs k b) (single : p.isLambdaOf 1 = true)
    {ws : List Value} (sub : ws ⊆ vs)
    (elements : runOn (elementsOf h src s) t = (.ok (some ws), m)) (hm : I m) :
    ∃ u, runOn ((Expr.seq .filter src [p]).eval h s) t = (.ok (.list (ws.filter b)), u) ∧ I u := by
  have kept := constant_keep (o := fun v => some (b v)) fun v hv => lasting.answers v (sub hv)
  rw [answered_some] at kept
  obtain ⟨u, run, hu⟩ := kept.ok hm
  refine ⟨u, ?_, hu⟩
  rw [Eval.run_filter single elements, runOn_map, run]
  rfl

/-- What ordering makes of some of the elements, if their keys last: they are in the one order of
their ranks among all. -/
theorem Lasting.run_order (lasting : Lasting I h key p s vs k b) (hop : op.descends? = some down)
    (single : key.isLambdaOf 1 = true) {ws : List Value} (sub : ws ⊆ vs)
    (elements : runOn (elementsOf h src s) t = (.ok (some ws), m)) (hm : I m) {n : Trail}
    (hn : I n) :
    let keyed : List Sorting.Keyed := vs.map fun v => (k v, v)
    let rank := Sorting.toward down (Sorting.rankIn (Sorting.keyBefore (h.world.after n)) keyed)
    ∃ ys u, runOn ((Expr.seq op src [key]).eval h s) t = (.ok (.list (ys.map (·.2))), u) ∧ I u
      ∧ Sorting.Ranked rank ys ∧ Sorting.Rearranges rank (ws.map fun v => (k v, v)) ys := by
  intro keyed rank
  have among {x : Sorting.Keyed} (hx : x ∈ keyed) : x.1 ∈ vs.map k := by
    obtain ⟨v, hv, rfl⟩ := List.mem_map.1 hx
    exact List.mem_map_of_mem hv
  obtain ⟨u, keys, hu⟩ := (constant_mapM fun v hv => lasting.keys v (sub hv)).ok hm
  have goes : Sorting.GoesBy (Sorting.keyBefore (h.world.after u))
      (Sorting.rankIn (Sorting.keyBefore (h.world.after n)) keyed) (· ∈ keyed) := by
    have compared : Sorting.Comparable (Sorting.keyBefore (h.world.after n)) (· ∈ keyed) :=
      (lasting.comparable n hn).withMissing.on fun x => among
    have before := compared.goesBy
    intro x y hx hy
    exact (lasting.order n u hn hu x.1 (among hx) y.1 (among hy)).trans (before x y hx hy)
  have pairs : (ws.map k).zip ws = ws.map fun v => (k v, v) := by
    simpa using List.zip_map' (f := k) (g := id) (l := ws)
  obtain ⟨ys, sorted, ranked, same⟩ := Sorting.order_ranked goes
    (fun x (hx : x ∈ ws.map fun v => (k v, v)) => List.map_subset _ sub hx) down
  refine ⟨ys, u, ?_, hu, ranked, same⟩
  rw [Eval.run_order hop single elements, run_sorted (mapM_keyed keys), pairs, sorted]
  rfl

/-- Filtering what was ordered is ordering what was filtered. -/
theorem filter_order (lasting : Lasting I h key p s vs k b) (hop : op.descends? = some down)
    (single : key.isLambdaOf 1 = true) (single' : p.isLambdaOf 1 = true)
    (elements : runOn (elementsOf h src s) t = (.ok (some vs), m)) (hm : I m) :
    ∃ ws u u', runOn ((Expr.seq .filter (.seq op src [key]) [p]).eval h s) t = (.ok (.list ws), u)
      ∧ runOn ((Expr.seq op (.seq .filter src [p]) [key]).eval h s) t = (.ok (.list ws), u') := by
  obtain ⟨ys, n, ordered, hn, ranked, same⟩ :=
    lasting.run_order hop single (List.Subset.refl vs) elements hm hm
  have sub : ys.map (·.2) ⊆ vs := by
    intro v hv
    obtain ⟨x, hx, rfl⟩ := List.mem_map.1 hv
    obtain ⟨v', hv', rfl⟩ := List.mem_map.1 (same.mem_iff.1 hx)
    exact hv'
  obtain ⟨u, filtered, -⟩ := lasting.run_filter single' sub (elementsOf_list ordered) hn
  obtain ⟨n', filtered', hn'⟩ := lasting.run_filter single' (List.Subset.refl vs) elements hm
  obtain ⟨zs, u', ordered', -, ranked', same'⟩ :=
    lasting.run_order hop single (List.filter_sublist).subset (elementsOf_list filtered') hn' hm
  refine ⟨_, u, u', filtered, ?_⟩
  have kept : (vs.filter b).map (fun v => (k v, v))
      = (vs.map fun v => (k v, v)).filter fun x => b x.2 := by
    rw [List.filter_map]
    rfl
  have one : zs = ys.filter fun x => b x.2 := by
    rw [kept] at same'
    refine Sorting.Rearranges.unique (fun i => ?_) (ranked.filter _) ranked'
    rw [same' i, same.filter _ i]
  rw [ordered', one, List.filter_map]
  rfl

end

end Eval

/-- Ordering is a stable sort in which missing keys come first, or last in descending order, and are
never compared; and filtering can be moved past it, if the keys, their order and the answers of the
test last. -/
theorem ordering_is_stable {h : Host} {op : SeqOp} {down : Bool} (src : Expr Value)
    {key : Expr Value} {s : Scope Value} (hop : op.descends? = some down)
    (single : key.isLambdaOf 1 = true) :
    (∀ t m u vs ks, runOn (Eval.elementsOf h src s) t = (.ok (some vs), m) →
      runOn (vs.mapM fun v => key.applyTo h [v] s) m = (.ok ks, u) →
      Sorting.Comparable (Sorting.before (h.world.after u)) (fun k => k ∈ ks ∧ k.isNone = false) →
      ∃ ys, runOn ((Expr.seq op src [key]).eval h s) t
          = (.ok (.list ((if down then ys ++ (ks.zip vs).filter (·.1.isNone)
              else (ks.zip vs).filter (·.1.isNone) ++ ys).map (·.2))), u)
        ∧ Sorting.SortsInto (h.world.after u) down ((ks.zip vs).filter (!·.1.isNone)) ys)
    ∧ (∀ w a b, a.isNone = true ∨ b.isNone = true →
      Sorting.before w a b = .ok (a.isNone && !b.isNone))
    ∧ ∀ t m vs p, p.isLambdaOf 1 = true → runOn (Eval.elementsOf h src s) t = (.ok (some vs), m) →
      (∃ I k b, I m ∧ Eval.Lasting I h key p s vs k b) →
      ∃ ws u u', runOn ((Expr.seq .filter (.seq op src [key]) [p]).eval h s) t = (.ok (.list ws), u)
        ∧ runOn ((Expr.seq op (.seq .filter src [p]) [key]).eval h s) t = (.ok (.list ws), u') := by
  refine ⟨fun _ _ _ _ _ elements keys comparable =>
    Eval.order_sorts hop single elements keys comparable, fun w _ _ => Sorting.before_missing w, ?_⟩
  rintro t m vs p single' elements ⟨I, k, b, hm, lasting⟩
  exact Eval.filter_order lasting hop single single' elements hm

namespace Expr

/-- An element if it is greater than one, and nothing otherwise. -/
def ifAboveOne : Expr Value :=
  lambda [⟨1, "x"⟩] (cond (binary .gt (param ⟨1, "x"⟩) (lit (.int 1))) (param ⟨1, "x"⟩) null)

theorem sample_ordering_is_stable :
    let h := (default : World).host
    let src : Expr Value := lit (.list [.int 3, .int 1, .int 2])
    SeqOp.descends? .orderByDescending = some true ∧ ifAboveOne.isLambdaOf 1 = true ∧ ∀ t,
      (∃ ys, runOn ((seq .orderByDescending src [ifAboveOne]).eval h .empty) t
          = (.ok (.list ((ys ++ [(.none, .int 1)]).map (·.2))), t)
        ∧ Sorting.SortsInto (h.world.after t) true [(.int 3, .int 3), (.int 2, .int 2)] ys)
      ∧ ∃ ws u u', runOn ((seq .filter (seq .orderByDescending src [ifAboveOne])
          [belowThree]).eval h .empty) t = (.ok (.list ws), u)
        ∧ runOn ((seq .orderByDescending (seq .filter src [belowThree])
          [ifAboveOne]).eval h .empty) t = (.ok (.list ws), u') := by
  intro h src
  refine ⟨rfl, rfl, fun t => ?_⟩
  have descends : SeqOp.descends? .orderByDescending = some true := rfl
  have single : ifAboveOne.isLambdaOf 1 = true := rfl
  obtain ⟨sorts, -, moves⟩ := ordering_is_stable (h := h) (s := .empty) src descends single
  have ints (w : World) (among : Value → Prop)
      (sub : ∀ a, among a → a ∈ [.int 3, .none, .int 2] ∧ a.isNone = false) :
      Sorting.Comparable (Sorting.before w) among := by
    refine Sorting.comparable_int fun a ha => ?_
    obtain ⟨is, present⟩ := sub a ha
    simp only [List.mem_cons, List.not_mem_nil, or_false] at is
    rcases is with rfl | rfl | rfl
    · exact ⟨3, rfl⟩
    · cases present
    · exact ⟨2, rfl⟩
  refine ⟨sorts t t t _ [.int 3, .none, .int 2] rfl rfl (ints _ _ fun _ ha => ha), ?_⟩
  let k (v : Value) : Value := if v.asInt? == some 1 then .none else v
  refine moves t t _ belowThree rfl rfl
    ⟨fun _ => True, k, fun v => v.asInt? != some 3, trivial, ?_⟩
  have each {P : Value → Prop} (three : P (.int 3)) (one : P (.int 1)) (two : P (.int 2)) :
      ∀ v ∈ [Value.int 3, .int 1, .int 2], P v := by
    simp only [List.forall_mem_cons]
    exact ⟨three, one, two, by simp⟩
  constructor
  · exact each ⟨fun _ _ => rfl, fun _ _ _ => trivial⟩ ⟨fun _ _ => rfl, fun _ _ _ => trivial⟩
      ⟨fun _ _ => rfl, fun _ _ _ => trivial⟩
  · exact each ⟨fun _ _ => rfl, fun _ _ _ => trivial⟩ ⟨fun _ _ => rfl, fun _ _ _ => trivial⟩
      ⟨fun _ _ => rfl, fun _ _ _ => trivial⟩
  · exact fun t _ => ints _ _ fun _ ha => ha
  · intro t t' _ _
    simp only [List.forall_mem_map]
    exact each (each rfl rfl rfl) (each rfl rfl rfl) (each rfl rfl rfl)

/-- A test that holds of every other element it is asked about keeps the greater of two if they are
put in descending order first, and otherwise the one that was in front. -/
theorem filter_order_differs :
    let x : Param := ⟨1, "x"⟩
    let src : Expr Value := lit (.list [.int 1, .int 2])
    let self : Expr Value := lambda [x] (param x)
    let other : Expr Value := lambda [x] (turning (.not (.var "was")))
    let t : Trail := ⟨2, [], []⟩
    (runOn ((seq .filter (seq .orderByDescending src [self]) [other]).eval gated.host .empty)
        t).1.toOption = some (.list [.int 2])
      ∧ (runOn ((seq .orderByDescending (seq .filter src [other]) [self]).eval gated.host .empty)
        t).1.toOption = some (.list [.int 1]) := by
  intro x src self other t
  let one : Sorting.Keyed := (.int 1, .int 1)
  let two : Sorting.Keyed := (.int 2, .int 2)
  have both (w : World) : Sorting.descending w [one, two] = .ok [two, one] := by
    have run : Sorting.firstRun (Sorting.keyBefore w) [two, one] = .ok ([one, two], []) := rfl
    show (Sorting.sort _ [two, one] >>= _) = _
    rw [Sorting.sort_of_run run]
    rfl
  have single (w : World) : Sorting.descending w [one] = .ok [one] := by
    have run : Sorting.firstRun (Sorting.keyBefore w) [one] = .ok ([one], []) := rfl
    show (Sorting.sort _ [one] >>= _) = _
    rw [Sorting.sort_of_run run]
    rfl
  let key (v : Value) : Making Sorting.Keyed := do return (← self.applyTo gated.host [v] .empty, v)
  have ordered : runOn ((seq .orderByDescending src [self]).eval gated.host .empty) t
      = (.ok (.list [.int 2, .int 1]), t) := by
    have keyed : runOn ([.int 1, .int 2].mapM key) t = (.ok [one, two], t) := rfl
    rw [Eval.run_order rfl rfl (m := t) rfl, Eval.run_sorted keyed, if_pos rfl, both]
    rfl
  let kept := runOn ((seq .filter src [other]).eval gated.host .empty) t
  have filtered : kept = (.ok (.list [.int 1]), kept.2) := rfl
  constructor
  · rw [Eval.run_filter rfl (Eval.elementsOf_list ordered)]
    rfl
  · have keyed : runOn ([.int 1].mapM key) kept.2 = (.ok [one], kept.2) := rfl
    rw [Eval.run_order rfl rfl (Eval.elementsOf_list filtered), Eval.run_sorted keyed, if_pos rfl,
      single]
    rfl

end Expr

end EntityGraph
