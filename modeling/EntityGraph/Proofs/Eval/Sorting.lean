import EntityGraph.Proofs.Eval.Permuted
import EntityGraph.Proofs.Realm.Calm

/-!
# What sorting fails with

How elements are sorted depends on the outcomes of many comparisons, and which ones are made depends on
the outcomes of those before. But only the elements are compared, and nothing is done in between that
can fail, so sorting fails only with what comparing two of them fails with. Each part of the sort is
shown to keep to this, for whatever test it is given.
-/

namespace EntityGraph

variable {α : Type} {R : Realm}

namespace Sorting

/-! ## Places -/

@[simp] theorem calm_halve {behind : Nat → Outcome Bool} (told : ∀ i, R.Calm (behind i))
    (low high : Nat) : R.Calm (halve behind low high) := by
  fun_induction halve behind low high <;> simp [*]

@[simp] theorem calm_stride {holds : Nat → Outcome Bool} (told : ∀ i, R.Calm (holds i))
    (limit fuel last next : Nat) : R.Calm (stride holds limit fuel last next) := by
  induction fuel generalizing last next <;> simp [stride, *]

@[simp] theorem calm_placeNear {behind : Nat → Outcome Bool} (told : ∀ i, R.Calm (behind i))
    (count hint : Nat) : R.Calm (placeNear behind count hint) := by
  unfold placeNear
  simp [*]

theorem calm_at? {test : α → Outcome Bool} {xs : List α} (told : ∀ x ∈ xs, R.Calm (test x))
    (i : Nat) : R.Calm (at? test xs i) :=
  (calm_elim _ _ _).2 ⟨fun _ => calm_ok _, fun x found => told x (List.mem_of_getElem? found)⟩

section

variable {less : Test α} {P : α → Prop}
  (told : ∀ x y, P x → P y → R.Calm (less x y))

include told

theorem calm_notAfter {x y : α} (hx : P x) (hy : P y) : R.Calm (notAfter less x y) :=
  (calm_bind _ _).2 ⟨told x y hx hy, fun _ _ => calm_ok _⟩

theorem calm_insert {sorted : List α} {x : α} (hs : ∀ y ∈ sorted, P y) (hx : P x) :
    R.Calm (insert less sorted x) := by
  have place := calm_halve (calm_at? fun y hy => calm_notAfter told hx (hs y hy)) 0 sorted.length
  unfold insert
  simp [place]

theorem calm_foldlM_insert {xs sorted : List α} (hs : ∀ y ∈ sorted, P y)
    (hxs : ∀ x ∈ xs, P x) : R.Calm (xs.foldlM (insert less) sorted) := by
  refine calm_foldlM (P := fun ys => ∀ y ∈ ys, P y) hs (fun ys hys x hx zs inserted z hz => ?_)
    fun ys hys x hx => calm_insert told hys (hxs x hx)
  rcases List.mem_cons.1 ((insert_perm inserted).mem_iff.1 hz) with rfl | old
  · exact hxs z hx
  · exact hys z old

/-! ## Merging -/

namespace Merge

omit told in
theorem calm_orElse {m : Merge α} {many : Nat} {go : Merge α → Outcome (List α × Nat)}
    (rest : R.Calm (go m)) : R.Calm (m.orElse many go) :=
  (calm_elim _ _ _).2 ⟨fun _ => rest, fun _ _ => calm_ok _⟩

omit told in
theorem calm_ahead {m : Merge α} {behind : α → Outcome Bool} {xs : List α}
    (told : ∀ x ∈ xs, R.Calm (behind x)) : R.Calm (m.ahead behind xs) := by
  have each := calm_at? told
  unfold ahead
  simp [each]

variable {m : Merge α} (hm : ∀ x ∈ m.contents, P x)

include hm

omit told in
theorem among_of_perm {m' : Merge α} (moved : m'.contents.Perm m.contents) :
    ∀ x ∈ m'.contents, P x :=
  fun x hx => hm x (moved.mem_iff.1 hx)

omit told in
theorem among_left : ∀ x ∈ m.left, P x := fun x hx => hm x (by simp [contents, hx])

omit told in
theorem among_right : ∀ x ∈ m.right, P x := fun x hx => hm x (by simp [contents, hx])

theorem calm_strideLeft : R.Calm (m.strideLeft less) := by
  unfold strideLeft
  split
  · exact calm_ok _
  · next y ys is =>
    have hy : P y := among_right hm y (by simp [is])
    refine (calm_bind _ _).2 ⟨calm_ahead fun x hx => ?_, fun _ _ => calm_ok _⟩
    exact calm_notAfter told hy (among_left hm x hx)

theorem calm_strideRight : R.Calm (m.strideRight less) := by
  unfold strideRight
  split
  · exact calm_ok _
  · next x xs is =>
    have hx : P x := among_left hm x (by simp [is])
    refine (calm_bind _ _).2 ⟨calm_ahead fun y hy => ?_, fun _ _ => calm_ok _⟩
    exact told y x (among_right hm y hy) hx

theorem calm_run (fuel : Nat) (pace : Pace) (many : Nat) : R.Calm (run less fuel pace many m) := by
  induction fuel generalizing pace many m with
  | zero => simp [run]
  | succ fuel ih =>
    cases pace with
    | single l r =>
      unfold run
      split
      · next x _ y _ isLeft isRight =>
        have compared := told y x (among_right hm y (by simp [isRight]))
          (among_left hm x (by simp [isLeft]))
        refine (calm_bind _ _).2 ⟨compared, fun answer _ => ?_⟩
        dsimp only
        generalize (answer == m.forwards) = fromRight
        cases fromRight with
        | true =>
          refine calm_orElse ?_
          simp only [if_true]
          split <;> exact ih (among_of_perm hm (takeRight_perm m 1)) _ _
        | false =>
          refine calm_orElse ?_
          simp only [Bool.false_eq_true, if_false]
          split <;> exact ih (among_of_perm hm (takeLeft_perm m 1)) _ _
      · exact calm_ok _
    | striding =>
      unfold run
      refine (calm_strideLeft told hm).bind (P := fun p => ∀ x ∈ p.1.contents, P x)
        (fun p is => among_of_perm hm (strideLeft_perm is)) fun p hp => ?_
      refine calm_orElse (calm_orElse ?_)
      have hp' := among_of_perm hp (takeRight_perm p.1 1)
      refine (calm_strideRight told hp').bind (P := fun q => ∀ x ∈ q.1.contents, P x)
        (fun q is => among_of_perm hp' (strideRight_perm is)) fun q hq => ?_
      refine calm_orElse (calm_orElse ?_)
      have hq' := among_of_perm hq (takeLeft_perm q.1 1)
      split <;> exact ih hq' _ _

end Merge

section

variable {xs ys : List α} (hxs : ∀ x ∈ xs, P x) (hys : ∀ y ∈ ys, P y)

include hxs hys

theorem calm_mergeInner (many : Nat) : R.Calm (mergeInner less many xs ys) := by
  have forwards : ∀ x ∈ (Merge.mk true [] xs ys).contents, P x := by
    simpa [Merge.contents, or_imp, forall_and] using ⟨hxs, hys⟩
  have backwards : ∀ x ∈ (Merge.mk false [] xs.reverse ys.reverse).contents, P x := by
    simpa [Merge.contents, or_imp, forall_and] using ⟨hxs, hys⟩
  refine (calm_bind _ _).2 ⟨Merge.calm_orElse (Merge.calm_run told ?_ _ _ _), fun _ _ => calm_ok _⟩
  split
  · exact Merge.among_of_perm forwards (Merge.takeRight_perm _ 1)
  · exact Merge.among_of_perm backwards (Merge.takeLeft_perm _ 1)

theorem calm_mergeRuns (many : Nat) : R.Calm (mergeRuns less many xs ys) := by
  unfold mergeRuns
  split
  · next y first =>
    have hy := hys y (List.mem_of_mem_head? first)
    refine (calm_bind _ _).2 ⟨?_, fun place _ => ?_⟩
    · exact calm_placeNear (calm_at? fun x hx => calm_notAfter told hy (hxs x hx)) _ _
    · simp only [List.splitAt_eq]
      have later : ∀ x ∈ xs.drop place, P x := fun x hx => hxs x (List.mem_of_mem_drop hx)
      split
      · next x last =>
        refine (calm_bind _ _).2 ⟨?_, fun place' _ => ?_⟩
        · refine calm_placeNear (calm_at? fun y hy => told y x (hys y hy) ?_) _ _
          exact later x (List.mem_of_getLast? last)
        · split
          · exact calm_ok _
          · refine (calm_bind _ _).2 ⟨calm_mergeInner told later ?_ _, fun _ _ => calm_ok _⟩
            exact fun y hy => hys y (List.mem_of_mem_take hy)
      · exact calm_ok _
  · exact calm_ok _

end

/-! ## Runs -/

theorem calm_splitRun (down : Bool) {x : α} {xs : List α} (hx : P x)
    (hxs : ∀ x ∈ xs, P x) : R.Calm (splitRun less down x xs) := by
  induction xs generalizing x with
  | nil => exact calm_ok _
  | cons y ys ih =>
    rw [List.forall_mem_cons] at hxs
    refine (calm_bind _ _).2 ⟨told y x hxs.1 hx, fun answer _ => ?_⟩
    split
    · exact (calm_bind _ _).2 ⟨ih hxs.1 hxs.2, fun _ _ => calm_ok _⟩
    · exact calm_ok _

theorem calm_firstRun {xs : List α} (hxs : ∀ x ∈ xs, P x) : R.Calm (firstRun less xs) := by
  unfold firstRun
  split
  · simp only [List.forall_mem_cons] at hxs
    refine (calm_bind _ _).2 ⟨told _ _ hxs.2.1 hxs.1, fun down _ => ?_⟩
    exact (calm_bind _ _).2 ⟨calm_splitRun told down hxs.2.1 hxs.2.2, fun _ _ => calm_ok _⟩
  · exact calm_ok _

theorem calm_nextRun (least : Nat) {xs : List α} (hxs : ∀ x ∈ xs, P x) :
    R.Calm (nextRun less least xs) := by
  refine (calm_firstRun told hxs).bind (P := fun p => ∀ x ∈ p.1 ++ p.2, P x)
    (fun p found x hx => hxs x ((firstRun_perm found).1.mem_iff.1 hx)) fun p hp => ?_
  rw [List.forall_mem_append] at hp
  refine (calm_bind _ _).2 ⟨calm_foldlM_insert told hp.1 fun x hx => ?_, fun _ _ => calm_ok _⟩
  exact hp.2 x (List.mem_of_mem_take hx)

theorem calm_merge (many : Nat) {front back : Run α} (hf : ∀ x ∈ front.elements, P x)
    (hb : ∀ x ∈ back.elements, P x) : R.Calm (front.merge less many back) :=
  (calm_bind _ _).2 ⟨calm_mergeRuns told hf hb many, fun _ _ => calm_ok _⟩

omit told in
theorem brings_merge {many : Nat} {front back : Run α} (hf : ∀ x ∈ front.elements, P x)
    (hb : ∀ x ∈ back.elements, P x) :
    Brings (fun r => ∀ x ∈ r.1.elements, P x) (front.merge less many back) :=
  fun _ merged x hx => (List.mem_append.1 ((Run.merge_perm merged).mem_iff.1 hx)).elim (hf x) (hb x)

theorem calm_collapse (power many : Nat) {last : Run α} {waiting : List (Run α)}
    (hl : ∀ x ∈ last.elements, P x) (hw : ∀ r ∈ waiting, ∀ x ∈ r.elements, P x) :
    R.Calm (collapse less power many last waiting) := by
  induction waiting generalizing many last with
  | nil => exact calm_ok _
  | cons r waiting ih =>
    rw [List.forall_mem_cons] at hw
    unfold collapse
    split
    · exact (calm_merge told many hw.1 hl).bind (brings_merge hw.1 hl) fun p hp => ih _ hp hw.2
    · exact calm_ok _

theorem calm_mergeAll (many : Nat) {last : Run α} {waiting : List (Run α)}
    (hl : ∀ x ∈ last.elements, P x) (hw : ∀ r ∈ waiting, ∀ x ∈ r.elements, P x) :
    R.Calm (mergeAll less many last waiting) := by
  fun_induction mergeAll less many last waiting with
  | case1 => exact calm_ok _
  | case2 many last r =>
    exact (calm_bind _ _).2 ⟨calm_merge told many (hw r (by simp)) hl, fun _ _ => calm_ok _⟩
  | case3 many last r s waiting shorter ih =>
    simp only [List.forall_mem_cons] at hw
    exact (calm_merge told many hw.2.1 hw.1).bind (brings_merge hw.2.1 hw.1) fun p hp =>
      ih p.1 p.2 hl (List.forall_mem_cons.2 ⟨hp, hw.2.2⟩)
  | case4 many last r s waiting longer ih =>
    simp only [List.forall_mem_cons] at hw
    exact (calm_merge told many hw.1 hl).bind (brings_merge hw.1 hl) fun p hp =>
      ih p.1 p.2 hp (List.forall_mem_cons.2 hw.2)

omit told in
theorem among_of_contents {waiting : List (Run α)} :
    (∀ r ∈ waiting, ∀ x ∈ r.elements, P x) ↔ ∀ x ∈ Run.contents waiting, P x := by
  simp only [Run.contents, List.mem_flatMap, List.mem_reverse]
  constructor
  · rintro h x ⟨r, hr, hx⟩
    exact h r hr x hx
  · exact fun h r hr x hx => h x ⟨r, hr, hx⟩

theorem calm_sortBehind (total least fuel many : Nat) {waiting : List (Run α)} {xs : List α}
    (hw : ∀ r ∈ waiting, ∀ x ∈ r.elements, P x) (hxs : ∀ x ∈ xs, P x) :
    R.Calm (sortBehind less total least fuel many waiting xs) := by
  induction fuel generalizing many waiting xs with
  | zero => simp [sortBehind]
  | succ fuel ih =>
    cases xs with
    | nil =>
      cases waiting with
      | nil => exact calm_ok _
      | cons last waiting =>
        rw [List.forall_mem_cons] at hw
        exact calm_mergeAll told many hw.1 hw.2
    | cons x xs =>
      simp only [sortBehind]
      refine (calm_nextRun told least hxs).bind (P := fun p => ∀ y ∈ p.1 ++ p.2, P y)
        (fun p next y hy => hxs y ((nextRun_perm next).1.mem_iff.1 hy)) fun p hp => ?_
      rw [List.forall_mem_append] at hp
      cases waiting with
      | nil => exact ih _ (List.forall_mem_singleton.2 hp.1) hp.2
      | cons last waiting =>
        have before := List.forall_mem_cons.1 hw
        refine (calm_collapse told _ many before.1 before.2).bind
          (P := fun q => ∀ r ∈ q.1, ∀ x ∈ r.elements, P x) (fun q is => ?_) fun q hq => ?_
        · refine among_of_contents.2 fun y hy => ?_
          exact among_of_contents.1 hw y ((collapse_perm is).mem_iff.1 hy)
        · exact ih _ (List.forall_mem_cons.2 ⟨hp.1, hq⟩) hp.2

/-- Sorting fails only with what comparing two of the elements fails with. -/
theorem calm_sort {xs : List α} (hxs : ∀ x ∈ xs, P x) : R.Calm (sort less xs) :=
  calm_sortBehind told _ _ _ _ nofun hxs

end

/-! ## Keys -/

section

variable {w : World} (h : R.Covers w) {xs : List Keyed} (hxs : ∀ x ∈ xs, R.Holds x.1)

include h

theorem calm_keyBefore {x y : Keyed} (hx : R.Holds x.1) (hy : R.Holds y.1) :
    R.Calm (keyBefore w x y) := by
  unfold keyBefore before
  split
  · exact calm_ok _
  · split
    · exact calm_ok _
    · refine (calm_bind _ _).2 ⟨Value.calm_same h hx hy, fun b _ => ?_⟩
      split
      · exact calm_ok _
      · exact (Value.calm_operate h .lt hx hy).bind (Value.brings_operate h .lt hx hy)
          fun v hv => Value.calm_truth hv

include hxs

theorem calm_ascending : R.Calm (ascending w xs) :=
  calm_sort (P := fun x => R.Holds x.1) (fun _ _ hx hy => calm_keyBefore h hx hy) hxs

theorem calm_descending : R.Calm (descending w xs) := by
  refine (calm_bind _ _).2 ⟨?_, fun _ _ => calm_ok _⟩
  exact calm_sort (P := fun x => R.Holds x.1) (fun _ _ hx hy => calm_keyBefore h hx hy)
    fun x hx => hxs x (List.mem_reverse.1 hx)

end

end Sorting

end EntityGraph
