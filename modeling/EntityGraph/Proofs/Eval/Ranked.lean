import EntityGraph.Proofs.Run
import EntityGraph.Eval.Sorting.Place
import Mathlib.Data.List.TakeWhile
import Mathlib.Data.List.Pairwise

/-!
# Places among ranked elements

A test that goes by ranks says of two elements whether the rank of the first one is less. What
sorting makes of elements is then described by two facts: ranks never fall from one element to the
next, and the elements of each rank are the same ones in the same order. There is only one such list
for given elements, so the description says it all, and it says that sorting is stable.

Finding the place of an element among others in order is asking about places whether they are in
front of it. The answers are true up to that place and false from there on, however the places are
picked that are asked about.
-/

namespace EntityGraph.Sorting

variable {α : Type}

/-! ## Elements with ranks -/

/-- Whether a test goes by ranks, among elements of a sort. -/
def GoesBy (less : Test α) (rank : α → Int) (among : α → Prop) : Prop :=
  ∀ x y, among x → among y → less x y = .ok (decide (rank x < rank y))

/-- Whether ranks never fall from one element to the next. -/
def Ranked (rank : α → Int) (xs : List α) : Prop := xs.Pairwise fun x y => rank x ≤ rank y

/-- Whether elements are the others in another order, in which those of one rank keep theirs. -/
def Rearranges (rank : α → Int) (xs ys : List α) : Prop :=
  ∀ n, ys.filter (rank · == n) = xs.filter (rank · == n)

variable {rank : α → Int} {xs ys zs : List α}

namespace Rearranges

theorem refl (xs : List α) : Rearranges rank xs xs := fun _ => rfl

theorem trans (h : Rearranges rank xs ys) (h' : Rearranges rank ys zs) : Rearranges rank xs zs :=
  fun n => (h' n).trans (h n)

theorem append {xs' ys' : List α} (h : Rearranges rank xs ys) (h' : Rearranges rank xs' ys') :
    Rearranges rank (xs ++ xs') (ys ++ ys') := by
  intro n
  rw [List.filter_append, List.filter_append, h n, h' n]

theorem mem_iff (h : Rearranges rank xs ys) {x : α} : x ∈ ys ↔ x ∈ xs := by
  have both := congrArg (x ∈ ·) (h (rank x))
  simpa using both

theorem filter (h : Rearranges rank xs ys) (p : α → Bool) :
    Rearranges rank (xs.filter p) (ys.filter p) := by
  intro n
  have swap (zs : List α) :
      (zs.filter p).filter (rank · == n) = (zs.filter (rank · == n)).filter p := by
    simp only [List.filter_filter, Bool.and_comm]
  rw [swap, swap, h n]

theorem reverse (h : Rearranges rank xs ys) : Rearranges rank xs.reverse ys.reverse := by
  intro n
  rw [List.filter_reverse, List.filter_reverse, h n]

/-- There is one order only in which ranks never fall and the elements of one rank keep theirs. -/
theorem unique (h : Rearranges rank xs ys) (hx : Ranked rank xs) (hy : Ranked rank ys) :
    ys = xs := by
  induction xs generalizing ys with
  | nil => exact List.eq_nil_iff_forall_not_mem.2 fun y hy => List.not_mem_nil (h.mem_iff.1 hy)
  | cons x xs ih =>
    cases ys with
    | nil => exact absurd (h.mem_iff.2 List.mem_cons_self) List.not_mem_nil
    | cons y ys =>
      obtain ⟨least, later⟩ := List.pairwise_cons.1 hx
      obtain ⟨least', later'⟩ := List.pairwise_cons.1 hy
      have below : rank x ≤ rank y := by
        rcases List.mem_cons.1 (h.mem_iff.1 (List.mem_cons_self (a := y) (l := ys))) with rfl | hm
        · exact Int.le_refl _
        · exact least y hm
      have above : rank y ≤ rank x := by
        rcases List.mem_cons.1 (h.mem_iff.2 (List.mem_cons_self (a := x) (l := xs))) with rfl | hm
        · exact Int.le_refl _
        · exact least' x hm
      have level : rank y = rank x := Int.le_antisymm above below
      have first := h (rank x)
      rw [List.filter_cons_of_pos (by simp [level]), List.filter_cons_of_pos (by simp)] at first
      obtain ⟨rfl, _⟩ := List.cons.inj first
      refine congrArg _ (ih (fun n => ?_) later later')
      have both := h n
      rw [List.filter_cons, List.filter_cons] at both
      split at both
      · exact (List.cons.inj both).2
      · exact both

end Rearranges

/-! ## Halving and striding -/

section

variable {behind : Nat → Outcome Bool} {k low high : Nat}

/-- Halving finds the place up to which all others are behind. -/
theorem halve_eq (least : low ≤ k) (most : k ≤ high)
    (told : ∀ i, low ≤ i → i < high → behind i = .ok (decide (i < k))) :
    halve behind low high = .ok k := by
  fun_induction halve behind low high with
  | case1 low high range middle up down =>
    rw [told middle (by omega) (by omega)]
    by_cases before : middle < k
    · rw [decide_eq_true before]
      exact up before most fun i hi => told i (by omega)
    · rw [decide_eq_false before]
      exact down least (by omega) fun i hi hi' => told i hi (by omega)
  | case2 low high empty =>
    obtain rfl : low = k := by omega
    rfl

/-- Striding gets to a distance at which a test holds and to one, within the limit, from which on it
does not. The strides grow, so that there are enough of them. -/
theorem stride_ok (holds : Nat → Outcome Bool) (limit m fuel last next : Nat)
    (told : ∀ d, d < limit → holds d = .ok (decide (d < m))) (within : m ≤ limit)
    (reached : last < m) (enough : limit < next + fuel) (some_left : 0 < fuel) :
    ∃ last' next', stride holds limit fuel last next = .ok (last', next')
      ∧ last' < m ∧ m ≤ next' ∧ next' ≤ limit := by
  induction fuel generalizing last next with
  | zero => omega
  | succ fuel ih =>
    rw [stride]
    by_cases far : limit ≤ next
    · exact ⟨last, limit, if_pos far, reached, within, Nat.le_refl _⟩
    · rw [if_neg far, told next (by omega)]
      by_cases before : next < m
      · rw [decide_eq_true before]
        exact ih next (2 * next + 1) before (by omega) (by omega)
      · rw [decide_eq_false before]
        exact ⟨last, next, rfl, reached, by omega, by omega⟩

/-- The place that is found from a hint is the one up to which all others are behind. -/
theorem placeNear_eq {count hint : Nat} (hinted : hint < count) (most : k ≤ count)
    (told : ∀ i, i < count → behind i = .ok (decide (i < k))) :
    placeNear behind count hint = .ok k := by
  rw [placeNear, told hint hinted]
  by_cases before : hint < k
  · obtain ⟨last, next, strode, below, above, within⟩ :=
      stride_ok (fun d => behind (hint + d)) (count - hint) (k - hint) count 0 1
        (fun d hd => by rw [told _ (by omega)]; congr 2; simp; omega)
        (by omega) (by omega) (by omega) (by omega)
    rw [decide_eq_true before]
    show (stride _ _ _ _ _ >>= _) = _
    rw [strode]
    exact halve_eq (by omega) (by omega) fun i _ hi => told i (by omega)
  · obtain ⟨last, next, strode, below, above, within⟩ :=
      stride_ok (fun d => do .ok (!(← behind (hint - d)))) (hint + 1) (hint + 1 - k) count 0 1
        (fun d hd => by
          rw [told _ (by omega)]
          show Except.ok (!decide (hint - d < k)) = _
          congr 1
          rw [← decide_not]
          congr 1
          simp
          omega) (by omega) (by omega) (by omega) (by omega)
    rw [decide_eq_false before]
    show (stride _ _ _ _ _ >>= _) = _
    rw [strode]
    exact halve_eq (by omega) (by omega) fun i _ hi => told i (by omega)

end

/-! ## Places among elements -/

/-- Where a test fails for all elements behind one for which it fails, there is a place that has all
elements that pass in front of it, and asking about a place tells whether it is in front of that. -/
theorem exists_place {test : α → Outcome Bool} {p : α → Bool}
    (told : ∀ x ∈ xs, test x = .ok (p x))
    (falls : xs.Pairwise fun x y => p y = true → p x = true) :
    ∃ k ≤ xs.length, (∀ x ∈ xs.take k, p x = true) ∧ (∀ x ∈ xs.drop k, p x = false)
      ∧ ∀ i, at? test xs i = .ok (decide (i < k)) := by
  induction xs with
  | nil => exact ⟨0, Nat.le_refl _, nofun, nofun, fun _ => rfl⟩
  | cons x xs ih =>
    rw [List.forall_mem_cons] at told
    obtain ⟨first, falls⟩ := List.pairwise_cons.1 falls
    cases passes : p x with
    | false =>
      have none : ∀ y ∈ x :: xs, p y = false := by
        refine List.forall_mem_cons.2 ⟨passes, fun y hy => ?_⟩
        exact Bool.eq_false_iff.2 fun h => absurd (first y hy h) (by simp [passes])
      refine ⟨0, Nat.zero_le _, nofun, none, fun i => ?_⟩
      cases i with
      | zero => exact told.1.trans (congrArg _ passes)
      | succ i =>
        show at? test xs i = _
        unfold at?
        cases found : xs[i]? with
        | none => rfl
        | some y =>
          have hy := List.mem_of_getElem? found
          exact (told.2 y hy).trans (congrArg _ (none y (List.mem_cons_of_mem x hy)))
    | true =>
      obtain ⟨k, most, front, back, asked⟩ := ih told.2 falls
      refine ⟨k + 1, Nat.succ_le_succ most, List.forall_mem_cons.2 ⟨passes, front⟩, back,
        fun i => ?_⟩
      cases i with
      | zero =>
        refine (told.1.trans (congrArg _ passes)).trans ?_
        simp
      | succ i =>
        refine (asked i).trans ?_
        simp

section

variable {less : Test α} {among : α → Prop} (goes : GoesBy less rank among)

include goes

theorem notAfter_eq {x y : α} (hx : among x) (hy : among y) :
    notAfter less x y = .ok (decide (rank y ≤ rank x)) := by
  rw [notAfter, goes x y hx hy]
  show Except.ok (!decide (rank x < rank y)) = _
  rw [← decide_not]
  simp only [Int.not_lt]

/-- What is put into its place comes behind the elements of its own rank. -/
theorem insert_ranked {x : α} (sorted : Ranked rank xs) (hxs : ∀ y ∈ xs, among y) (hx : among x) :
    ∃ ys, insert less xs x = .ok ys ∧ Ranked rank ys ∧ Rearranges rank (xs ++ [x]) ys := by
  obtain ⟨k, most, front, back, asked⟩ := exists_place (p := fun y => decide (rank y ≤ rank x))
    (fun y hy => notAfter_eq goes hx (hxs y hy))
    (sorted.imp fun le h => decide_eq_true (Int.le_trans le (of_decide_eq_true h)))
  have place : halve (at? (notAfter less x) xs) 0 xs.length = .ok k :=
    halve_eq (Nat.zero_le _) most fun i _ _ => asked i
  refine ⟨xs.take k ++ x :: xs.drop k, by rw [insert, place]; rfl, ?_, fun n => ?_⟩
  · have whole := sorted
    rw [Ranked, ← List.take_append_drop k xs, List.pairwise_append] at whole
    refine List.pairwise_append.2 ⟨whole.1, List.pairwise_cons.2 ⟨fun y hy => ?_, whole.2.1⟩,
      fun y hy z hz => ?_⟩
    · exact Int.le_of_lt (Int.not_le.1 (of_decide_eq_false (back y hy)))
    · rcases List.mem_cons.1 hz with rfl | hz
      · exact of_decide_eq_true (front y hy)
      · exact whole.2.2 y hy z hz
  · have whole : xs.filter (rank · == n)
        = (xs.take k).filter (rank · == n) ++ (xs.drop k).filter (rank · == n) := by
      rw [← List.filter_append, List.take_append_drop]
    rw [List.filter_append, List.filter_append, whole]
    by_cases level : rank x = n
    · have behind : (xs.drop k).filter (rank · == n) = [] := by
        refine List.filter_eq_nil_iff.2 fun y hy same => ?_
        have := of_decide_eq_false (back y hy)
        simp only [beq_iff_eq] at same
        omega
      simp [level, behind]
    · simp [level]

end

end EntityGraph.Sorting
