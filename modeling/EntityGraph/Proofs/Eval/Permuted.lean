import EntityGraph.Proofs.Run
import EntityGraph.Eval.Sorting
import Mathlib.Data.List.Perm.Basic

/-!
# Sorting loses nothing

Sorting moves elements about and does nothing else to them. Comparing may fail, and its answers may
contradict each other; whatever they are, if sorting comes to an end then the sorted elements are a
permutation of the given ones.

What is taken from two runs and what is left of them is the same at every step of merging them, and
what waits and what is yet to be sorted is the same at every step of sorting.
-/

namespace EntityGraph.Sorting

variable {α : Type} {less : Test α}

theorem insert_perm {sorted ys : List α} {x : α} (h : insert less sorted x = .ok ys) :
    ys.Perm (x :: sorted) := by
  obtain ⟨place, -, h⟩ := outcome_bind_ok h
  cases h
  have whole : (x :: (sorted.take place ++ sorted.drop place)).Perm (x :: sorted) := by
    rw [List.take_append_drop]
  exact List.perm_middle.trans whole

/-! ## Merging -/

namespace Merge

/-- What was taken, and what is left of both runs. -/
def contents (m : Merge α) : List α := m.taken ++ m.left ++ m.right

theorem reversed_perm (m : Merge α) :
    (m.taken.reverse ++ m.left ++ m.right).Perm m.contents :=
  ((List.reverse_perm _).append_right _).append_right _

theorem takeLeft_perm (m : Merge α) (n : Nat) : (m.takeLeft n).contents.Perm m.contents := by
  have moved : ((m.left.take n).reverse ++ m.taken).Perm (m.taken ++ m.left.take n) :=
    ((List.reverse_perm _).append_right _).trans List.perm_append_comm
  have whole : m.taken ++ m.left.take n ++ m.left.drop n = m.taken ++ m.left := by
    rw [List.append_assoc, List.take_append_drop]
  exact (whole ▸ moved.append_right (m.left.drop n)).append_right m.right

theorem takeRight_perm (m : Merge α) (n : Nat) : (m.takeRight n).contents.Perm m.contents := by
  have moved : ((m.right.take n).reverse ++ (m.taken ++ m.left)).Perm
      (m.taken ++ m.left ++ m.right.take n) :=
    ((List.reverse_perm _).append_right _).trans List.perm_append_comm
  have whole := moved.append_right (m.right.drop n)
  rw [List.append_assoc _ (m.right.take n), List.take_append_drop] at whole
  simpa only [contents, takeRight, List.append_assoc] using whole

theorem finished?_perm {m : Merge α} {xs : List α} (h : m.finished? = some xs) :
    xs.Perm m.contents := by
  simp only [finished?, Option.ite_none_right_eq_some, Option.some.injEq] at h
  obtain ⟨-, rfl⟩ := h
  refine .trans ?_ (reversed_perm m)
  cases m.forwards
  · exact .refl _
  · rw [List.append_assoc, List.append_assoc]
    exact List.perm_append_comm.append_left _

theorem orElse_perm {m : Merge α} {many : Nat} {go : Merge α → Outcome (List α × Nat)}
    {r : List α × Nat} (h : m.orElse many go = .ok r)
    (rest : go m = .ok r → r.1.Perm m.contents) : r.1.Perm m.contents := by
  unfold orElse at h
  cases done : m.finished? with
  | none =>
    rw [done] at h
    exact rest h
  | some xs =>
    rw [done] at h
    cases h
    exact finished?_perm done

theorem strideLeft_perm {m m' : Merge α} {n : Nat} (h : m.strideLeft less = .ok (m', n)) :
    m'.contents.Perm m.contents := by
  unfold strideLeft at h
  split at h
  · cases h
    exact .refl _
  · obtain ⟨k, -, h⟩ := outcome_bind_ok h
    cases h
    exact takeLeft_perm m n

theorem strideRight_perm {m m' : Merge α} {n : Nat} (h : m.strideRight less = .ok (m', n)) :
    m'.contents.Perm m.contents := by
  unfold strideRight at h
  split at h
  · cases h
    exact .refl _
  · obtain ⟨k, -, h⟩ := outcome_bind_ok h
    cases h
    exact takeRight_perm m n

/-- Each step moves elements from one of the runs to the taken ones. -/
theorem run_perm {fuel : Nat} {pace : Pace} {many : Nat} {m : Merge α} {r : List α × Nat}
    (h : run less fuel pace many m = .ok r) : r.1.Perm m.contents := by
  induction fuel generalizing pace many m with
  | zero =>
    cases h
    exact reversed_perm m
  | succ fuel ih =>
    cases pace with
    | single l r' =>
      rw [run] at h
      split at h
      · obtain ⟨told, -, h⟩ := outcome_bind_ok h
        dsimp only at h
        generalize (told == m.forwards) = fromRight at h
        cases fromRight with
        | true =>
          refine (orElse_perm h fun h => ?_).trans (takeRight_perm m 1)
          simp only [if_true] at h
          split at h <;> exact ih h
        | false =>
          refine (orElse_perm h fun h => ?_).trans (takeLeft_perm m 1)
          simp only [Bool.false_eq_true, if_false] at h
          split at h <;> exact ih h
      · cases h
        exact reversed_perm m
    | striding =>
      rw [run] at h
      obtain ⟨⟨a, l⟩, first, h⟩ := outcome_bind_ok h
      refine (orElse_perm h fun h => ?_).trans (strideLeft_perm first)
      refine (orElse_perm h fun h => ?_).trans (takeRight_perm a 1)
      obtain ⟨⟨b, r'⟩, second, h⟩ := outcome_bind_ok h
      refine (orElse_perm h fun h => ?_).trans (strideRight_perm second)
      refine (orElse_perm h fun h => ?_).trans (takeLeft_perm b 1)
      split at h <;> exact ih h

end Merge

theorem mergeInner_perm {many : Nat} {xs ys : List α} {r : List α × Nat}
    (h : mergeInner less many xs ys = .ok r) : r.1.Perm (xs ++ ys) := by
  obtain ⟨⟨zs, k⟩, merged, h⟩ := outcome_bind_ok h
  cases h
  have start := Merge.orElse_perm merged Merge.run_perm
  by_cases forwards : xs.length ≤ ys.length
  · simp only [forwards, if_true] at start ⊢
    exact start.trans (Merge.takeRight_perm _ 1)
  · simp only [forwards, if_false] at start ⊢
    have whole := start.trans (Merge.takeLeft_perm _ 1)
    have turned := (List.reverse_perm xs).append (List.reverse_perm ys)
    exact (List.reverse_perm zs).trans (whole.trans turned)

theorem mergeRuns_perm {many : Nat} {xs ys : List α} {r : List α × Nat}
    (h : mergeRuns less many xs ys = .ok r) : r.1.Perm (xs ++ ys) := by
  unfold mergeRuns at h
  split at h
  · next y _ =>
    obtain ⟨i, -, h⟩ := outcome_bind_ok h
    simp only [List.splitAt_eq] at h
    split at h
    · next x _ =>
      obtain ⟨j, -, h⟩ := outcome_bind_ok h
      split at h
      · next none_left =>
        cases h
        have all : ys.drop j = ys := by
          conv_rhs => rw [← List.take_append_drop j ys, List.isEmpty_iff.1 none_left,
            List.nil_append]
        rw [all, List.take_append_drop]
      · obtain ⟨⟨zs, k⟩, merged, h⟩ := outcome_bind_ok h
        cases h
        have inner := ((mergeInner_perm merged).append_left (xs.take i)).append_right (ys.drop j)
        simp only [List.append_assoc, List.take_append_drop] at inner ⊢
        rwa [← List.append_assoc (xs.take i) (xs.drop i), List.take_append_drop] at inner
    · next none_left =>
      cases h
      have all : xs.take i = xs := by
        have empty := List.getLast?_eq_none_iff.1 (Option.eq_none_iff_forall_ne_some.2 none_left)
        conv_rhs => rw [← List.take_append_drop i xs, empty, List.append_nil]
      rw [all]
  · next none =>
    cases h
    have empty := List.head?_eq_none_iff.1 (Option.eq_none_iff_forall_ne_some.2 none)
    rw [empty, List.append_nil]

/-! ## Runs -/

theorem splitRun_append {down : Bool} {x : α} {xs run rest : List α}
    (h : splitRun less down x xs = .ok (run, rest)) : run ++ rest = xs := by
  induction xs generalizing x run with
  | nil =>
    cases h
    rfl
  | cons y ys ih =>
    rw [splitRun] at h
    obtain ⟨told, -, h⟩ := outcome_bind_ok h
    split at h
    · obtain ⟨⟨run', rest'⟩, more, h⟩ := outcome_bind_ok h
      cases h
      rw [List.cons_append, ih more]
    · cases h
      rfl

theorem firstRun_perm {xs run rest : List α} (h : firstRun less xs = .ok (run, rest)) :
    (run ++ rest).Perm xs ∧ (run = [] → xs = []) := by
  unfold firstRun at h
  split at h
  · next x y ys =>
    obtain ⟨down, -, h⟩ := outcome_bind_ok h
    obtain ⟨⟨run', rest'⟩, more, h⟩ := outcome_bind_ok h
    cases h
    have whole := congrArg (fun zs => x :: y :: zs) (splitRun_append more)
    cases down with
    | true =>
      refine ⟨?_, by simp⟩
      exact ((List.reverse_perm _).append_right _).trans (.of_eq whole)
    | false => exact ⟨.of_eq whole, by simp⟩
  · cases h
    exact ⟨by simp, id⟩

theorem foldlM_insert_perm {xs sorted ys : List α}
    (h : xs.foldlM (insert less) sorted = .ok ys) : ys.Perm (sorted ++ xs) := by
  induction xs generalizing sorted with
  | nil =>
    cases h
    simp
  | cons x xs ih =>
    rw [List.foldlM_cons] at h
    obtain ⟨more, first, h⟩ := outcome_bind_ok h
    exact (ih h).trans (((insert_perm first).append_right xs).trans List.perm_middle.symm)

/-- The next run and what is behind it, which is less than there was. -/
theorem nextRun_perm {least : Nat} {x : α} {xs run rest : List α}
    (h : nextRun less least (x :: xs) = .ok (run, rest)) :
    (run ++ rest).Perm (x :: xs) ∧ rest.length ≤ xs.length := by
  obtain ⟨⟨run', rest'⟩, first, h⟩ := outcome_bind_ok h
  obtain ⟨longer, inserted, h⟩ := outcome_bind_ok h
  cases h
  obtain ⟨whole, nonempty⟩ := firstRun_perm first
  have count := whole.length_eq
  have some_taken : run' ≠ [] := fun none => by cases nonempty none
  have positive := List.length_pos_iff.2 some_taken
  refine ⟨?_, ?_⟩
  · have all := (foldlM_insert_perm inserted).append_right (rest'.drop (least - run'.length))
    rw [List.append_assoc, List.take_append_drop] at all
    exact all.trans whole
  · simp only [List.length_append, List.length_cons] at count
    simp only [List.length_drop]
    omega

/-- The elements of runs that wait, the last run's last. -/
def Run.contents (waiting : List (Run α)) : List α := waiting.reverse.flatMap Run.elements

@[simp] theorem Run.contents_cons (r : Run α) (waiting : List (Run α)) :
    Run.contents (r :: waiting) = Run.contents waiting ++ r.elements := by
  simp [Run.contents]

theorem Run.merge_perm {many : Nat} {front back : Run α} {r : Run α × Nat}
    (h : front.merge less many back = .ok r) :
    r.1.elements.Perm (front.elements ++ back.elements) := by
  obtain ⟨⟨zs, k⟩, merged, h⟩ := outcome_bind_ok h
  cases h
  exact mergeRuns_perm merged

theorem collapse_perm {power many : Nat} {last : Run α} {waiting : List (Run α)}
    {r : List (Run α) × Nat} (h : collapse less power many last waiting = .ok r) :
    (Run.contents r.1).Perm (Run.contents (last :: waiting)) := by
  induction waiting generalizing many last with
  | nil =>
    cases h
    simp
  | cons front waiting ih =>
    rw [collapse] at h
    split at h
    · obtain ⟨⟨merged, k⟩, step, h⟩ := outcome_bind_ok h
      refine (ih h).trans ?_
      simpa using (Run.merge_perm step).append_left (Run.contents waiting)
    · cases h
      simp

theorem mergeAll_perm {many : Nat} {last : Run α} {waiting : List (Run α)} {xs : List α}
    (h : mergeAll less many last waiting = .ok xs) :
    xs.Perm (Run.contents (last :: waiting)) := by
  fun_induction mergeAll less many last waiting with
  | case1 many last =>
    cases h
    simp [Run.contents]
  | case2 many last r =>
    obtain ⟨⟨merged, k⟩, step, h⟩ := outcome_bind_ok h
    cases h
    simpa [Run.contents] using Run.merge_perm step
  | case3 many last r s waiting shorter ih =>
    obtain ⟨⟨merged, k⟩, step, h⟩ := outcome_bind_ok h
    refine (ih _ _ h).trans ?_
    have inner := (Run.merge_perm step).append_left (Run.contents waiting)
    simpa using inner.append_right last.elements
  | case4 many last r s waiting longer ih =>
    obtain ⟨⟨merged, k⟩, step, h⟩ := outcome_bind_ok h
    refine (ih _ _ h).trans ?_
    simpa using (Run.merge_perm step).append_left (Run.contents waiting ++ s.elements)

/-- Each step takes a run off what is yet to be sorted, so the bound of their number is not
reached. -/
theorem sortBehind_perm {total least fuel many : Nat} {waiting : List (Run α)} {xs ys : List α}
    (bound : xs.length < fuel) (h : sortBehind less total least fuel many waiting xs = .ok ys) :
    ys.Perm (Run.contents waiting ++ xs) := by
  induction fuel generalizing many waiting xs with
  | zero => omega
  | succ fuel ih =>
    cases xs with
    | nil =>
      rw [List.append_nil]
      cases waiting with
      | nil =>
        cases h
        exact .refl _
      | cons last waiting => exact mergeAll_perm h
    | cons x xs =>
      simp only [sortBehind] at h
      obtain ⟨⟨run, rest⟩, next, h⟩ := outcome_bind_ok h
      obtain ⟨whole, less_left⟩ := nextRun_perm next
      have shorter : rest.length < fuel := by
        simp only [List.length_cons] at bound
        omega
      cases waiting with
      | nil =>
        refine (ih shorter h).trans ?_
        rw [Run.contents_cons, List.append_assoc]
        exact whole.append_left _
      | cons last waiting =>
        obtain ⟨⟨waiting', many'⟩, step, h⟩ := outcome_bind_ok h
        refine (ih shorter h).trans ?_
        rw [Run.contents_cons, List.append_assoc]
        exact (collapse_perm step).append whole

/-- Sorting permutes. -/
theorem sort_perm {xs ys : List α} (h : sort less xs = .ok ys) : ys.Perm xs :=
  sortBehind_perm (Nat.lt_succ_self _) h

/-! ## Sorting by keys -/

theorem ascending_perm {w : World} {xs ys : List Keyed} (h : ascending w xs = .ok ys) :
    ys.Perm xs :=
  sort_perm h

theorem descending_perm {w : World} {xs ys : List Keyed} (h : descending w xs = .ok ys) :
    ys.Perm xs := by
  obtain ⟨zs, sorted, h⟩ := outcome_bind_ok h
  cases h
  exact (List.reverse_perm zs).trans ((sort_perm sorted).trans (List.reverse_perm xs))

end EntityGraph.Sorting
